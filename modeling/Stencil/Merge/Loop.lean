import Stencil.Merge.Extract
import Stencil.Node.References
import Stencil.Score.Complaints

namespace Stencil

def Reference.insertKey (depth : Nat) (key : String) (r : Reference) : Reference :=
  r.take depth ++ [key] ++ r.drop depth

def Attribute.insertKey (depth : Nat) (key : String) : Attribute → Attribute
  | .slot n r => .slot n (Reference.insertKey depth key r)
  | .optional n r => .optional n (Reference.insertKey depth key r)
  | a => a

namespace Node

mutual
def insertKey (depth : Nat) (key : String) : Node → Node
  | slot k r => slot k (r.insertKey depth key)
  | block k r t => block k (r.insertKey depth key) (insertKey depth key t)
  | element t cs =>
    element { t with attrs := t.attrs.map (Attribute.insertKey depth key) } (insertKeys depth key cs)
  | n => n

def insertKeys (depth : Nat) (key : String) : List Node → List Node
  | [] => []
  | n :: rest => insertKey depth key n :: insertKeys depth key rest
end

end Node

namespace Merge

def moveReference (side : Side) (depth : Nat) (key : String) (moved : Fields) (r : Reference) :
    Merge Fields := do
  let (scope, last) := r.split
  modify fun s =>
    { s with registry := s.registry.copyEntry scope last (Reference.insertKey depth key scope) }
  match r[depth]? with
  | none => throw (.shortReference r depth)
  | some top =>
    if Assoc.has top moved then return moved
    else match ← find? side top with
      | none => return moved
      | some v => do
        remove side top
        return moved ++ [(top, v)]

def moveInto (side : Side) (chain : Scope) (n : Node) (key : String) : Merge (Node × Fields) :=
  if n.hasReferences then do
    let depth := chain.length
    let moved ← n.references.foldlM (moveReference side depth key) []
    reshape
    return (n.insertKey depth key, moved)
  else return (n, [])

def moveAll (side : Side) (chain : Scope) (key : String) : List Node → Merge (List (Node × Fields))
  | [] => return []
  | n :: rest => do
    let first ← moveInto side chain n key
    let others ← moveAll side chain key rest
    return first :: others

def buildLoop (merge : NodeMerger) (chain : Scope) (around : Around) (as bs : List Node) :
    Merge Node := do
  let key ← newKey chain around.left "items" .items around.left none
  let inner := reference chain key
  let left ← moveAll .left chain key as
  let right ← moveAll .right chain key bs
  let all := left ++ right
  let elements := all.map Prod.fst
  let (template, records) ← extract Node.same (fun t e => merge inner around t e)
    (elements.headD .content) elements
  let items := (records.zip (all.map Prod.snd)).map fun (record, held) =>
    Value.map (mergeFields record held)
  put .left key (.list (items.take as.length))
  put .right key (.list (items.drop as.length))
  debug s!"Loop {key} built from {as.length} + {bs.length} element(s)"
  return .block .loop inner template

def absorb (merge : NodeMerger) (around : Around) (side : Side) (ref : Reference) (template : Node)
    (elements : List Node) : Merge Node := do
  let (grown, records) ← extract Node.same (fun t e => merge ref around t e) template elements
  if !grown.same template then reshape
  put side ref.key (.list (records.map Value.map))
  return .block .loop ref grown

end Merge

end Stencil
