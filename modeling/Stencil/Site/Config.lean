import Stencil.Failure
import Stencil.Glob
import Stencil.Json.Basic
import Stencil.Region
import Stencil.Text.Blank

namespace Stencil

structure CollectionConfig where
  name : String
  patterns : List String
  region : Option RegionConfig := none

structure SiteConfig where
  collections : List CollectionConfig
  distinct : (collections.map CollectionConfig.name).Nodup

namespace CollectionConfig

def takes (c : CollectionConfig) (pathname : String) : Bool :=
  c.patterns.any fun pattern => Glob.matchesText pattern pathname

end CollectionConfig

namespace SiteConfig

def entry (entries : List (String × Json)) (key : String) : Json :=
  (entries.lookup key).getD .null

def filledText? : Json → Option String
  | .string s =>
    let s := Text.strip s
    if s.isEmpty then none else some s
  | _ => none

def selectorOf (index : Nat) (entries : List (String × Json)) (key : String) :
    Except ConfigProblem (Option String) :=
  match entry entries key with
  | .null => .ok none
  | j =>
    match filledText? j with
    | some s => .ok (some s)
    | none => .error (.badSelector index key)

def regionOf (index : Nat) : Json → Except ConfigProblem (Option RegionConfig)
  | .null => .ok none
  | .object entries => do
    let inside ← selectorOf index entries "selector"
    let after ← selectorOf index entries "after_selector"
    let before ← selectorOf index entries "before_selector"
    if inside.isNone && after.isNone && before.isNone then throw (.emptyContent index)
    return some { inside, after, before }
  | _ => .error (.badContent index)

def patternsOf (index : Nat) : Json → Except ConfigProblem (List String)
  | .array [] => .error (.badInclude index)
  | .array items =>
    match items.mapM filledText? with
    | some patterns => .ok patterns
    | none => .error (.badInclude index)
  | _ => .error (.badInclude index)

def collectionOf (index : Nat) (taken : List String) : Json → Except ConfigProblem CollectionConfig
  | .object entries => do
    let name ← match filledText? (entry entries "name") with
      | some name => .ok name
      | none => .error (.noName index)
    if taken.contains name then throw (.duplicateName index name)
    let patterns ← patternsOf index (entry entries "include")
    let region ← regionOf index (entry entries "content")
    return { name, patterns, region }
  | _ => .error (.notAnObject index)

def collectionsOf (index : Nat) (taken : List String) :
    List Json → Except ConfigProblem (List CollectionConfig)
  | [] => .ok []
  | j :: rest => do
    let c ← collectionOf index taken j
    let others ← collectionsOf (index + 1) (c.name :: taken) rest
    return c :: others

section Names

variable {index : Nat} {taken : List String}

theorem name_of_collectionOf {j : Json} {c : CollectionConfig} (h : collectionOf index taken j = .ok c) :
    c.name ∉ taken := by
  cases j with
  | object entries =>
    rw [collectionOf] at h
    cases hname : filledText? (entry entries "name") with
    | none =>
      rw [hname] at h
      cases h
    | some name =>
      rw [hname] at h
      dsimp only [bind, Except.bind] at h
      split at h
      · cases h
      · next htaken =>
        obtain ⟨patterns, -, h⟩ := bind_eq_ok.mp h
        obtain ⟨region, -, h⟩ := bind_eq_ok.mp h
        cases h
        simpa using htaken
  | _ => cases h

theorem names_of_collectionsOf {items : List Json} {cs : List CollectionConfig}
    (h : collectionsOf index taken items = .ok cs) :
    (cs.map CollectionConfig.name).Nodup ∧ ∀ c ∈ cs, c.name ∉ taken := by
  induction items generalizing index taken cs with
  | nil =>
    cases h
    simp
  | cons j items ih =>
    rw [collectionsOf] at h
    obtain ⟨c, hc, h⟩ := bind_eq_ok.mp h
    obtain ⟨others, hothers, h⟩ := bind_eq_ok.mp h
    cases h
    obtain ⟨hdistinct, hfree⟩ := ih hothers
    have hfirst := name_of_collectionOf hc
    constructor
    · rw [List.map_cons, List.nodup_cons]
      refine ⟨fun hmem => ?_, hdistinct⟩
      obtain ⟨d, hd, hsame⟩ := List.mem_map.mp hmem
      exact hfree d hd (hsame ▸ List.mem_cons_self)
    · intro d hd
      rcases List.mem_cons.mp hd with rfl | hd
      · exact hfirst
      · exact fun htaken => hfree d hd (List.mem_cons_of_mem _ htaken)

end Names

def read : Json → Except ConfigProblem SiteConfig
  | .object entries =>
    match entry entries "collections" with
    | .array (j :: rest) =>
      match h : collectionsOf 0 [] (j :: rest) with
      | .ok collections => .ok ⟨collections, (names_of_collectionsOf h).1⟩
      | .error problem => .error problem
    | _ => .error .noCollections
  | _ => .error .topLevel

def ofJson (source : String) (j : Json) : Except Failure SiteConfig :=
  match read j with
  | .ok config => .ok config
  | .error problem => .error (.badConfig source problem)

def standard : SiteConfig :=
  ⟨[{ name := "pages", patterns := ["*.html"] }], by decide⟩

def regionToJson (r : RegionConfig) : Json :=
  .object ([("selector", r.inside), ("after_selector", r.after), ("before_selector", r.before)].filterMap
    fun (key, selector) => selector.map fun s => (key, Json.string s))

def collectionToJson (c : CollectionConfig) : Json :=
  .object ([("name", .string c.name), ("include", .array (c.patterns.map .string))] ++
    (c.region.map fun r => ("content", regionToJson r)).toList)

def toJson (s : SiteConfig) : Json :=
  .object [("collections", .array (s.collections.map collectionToJson))]

end SiteConfig

end Stencil
