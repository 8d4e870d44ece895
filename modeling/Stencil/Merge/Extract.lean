import Stencil.Merge.State

/-!
Fitting a template to several sources. A source may change the template; then the records read before
are filled up with what the template held, or, where that is not possible, all sources are read again
with the grown template.
-/

namespace Stencil.Merge

variable {τ σ : Type}

/-- Reads the sources once. Without records the template has grown and the sources have to be read
again, which `mayRestart` allows. -/
def readSources (same : τ → τ → Bool) (merge : τ → σ → Merge τ) (mayRestart : Bool) :
    τ → List Fields → List σ → Merge (τ × Option (List Fields))
  | template, records, [] => return (template, some records)
  | template, records, source :: rest => do
    let reshaped := (← get).reshaped
    let (merged, held, record) ← inScope (merge template source)
    if same merged template then
      readSources same merge mayRestart template (records ++ [record]) rest
    else if mayRestart && ((← get).reshaped != reshaped || held.any fun e => e.2.isMap) then
      return (merged, none)
    else
      let filled := records.map fun r => mergeFields r held
      readSources same merge mayRestart merged (filled ++ [record]) rest

def extractWithin (same : τ → τ → Bool) (merge : τ → σ → Merge τ) (sources : List σ) :
    Nat → τ → Merge (τ × List Fields)
  | 0, template => do
    let (template, records) ← readSources same merge false template [] sources
    return (template, records.getD [])
  | restarts + 1, template => do
    match ← readSources same merge true template [] sources with
    | (template, some records) => return (template, records)
    | (template, none) => extractWithin same merge sources restarts template

def extract (same : τ → τ → Bool) (merge : τ → σ → Merge τ) (template : τ) (sources : List σ) :
    Merge (τ × List Fields) :=
  extractWithin same merge sources (sources.length + 1) template

end Stencil.Merge
