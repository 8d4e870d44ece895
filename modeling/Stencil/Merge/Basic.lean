import Stencil.Merge.Attributes
import Stencil.Merge.Siblings

/-!
Merging two trees into one layout. Where they differ the layout has a slot or a block, and each page
gets its value for it.
-/

namespace Stencil.Merge

variable (α : Type) [Grade α]

def mergeConditional (merge : NodeMerger) (around : Around) (side : Side) (ref : Reference)
    (template other : Node) : Merge Node := do
  let (merged, left, right) ← inScope (match side with
    | .left => merge ref around template other
    | .right => merge ref around other template)
  let (own, others) := match side with
    | .left => (left, right)
    | .right => (right, left)
  put side.other ref.key (if others.isEmpty then .bool true else .map others)
  if !own.isEmpty then
    let base := match ← find? side ref.key with
      | some (.map fields) => fields
      | _ => []
    put side ref.key (.map (mergeFields base own))
  return .block .conditional ref merged

def mergeElements (merge : NodeMerger) (chain : Scope) (s t : Tag) (cs ds : List Node) :
    Merge Node := do
  if s.name != t.name then throw (.tagsDiffer s.name t.name)
  else if s.name == "svg" then mergeDrawings chain s (.element s cs) (.element t ds)
  else
    let attrs ← mergeAttributes chain s t
    let children ← mergeSiblings α merge chain ⟨some s, some t⟩ cs ds
    return .element ⟨s.name, attrs⟩ children

def mismatch (a b : Node) : Merge Node := do
  let x ← ofExcept (a.describe 1)
  let y ← ofExcept (b.describe 1)
  throw (.cannotMerge x y)

def mergeStep (merge : NodeMerger) : NodeMerger := fun chain around a b =>
  match a, b with
  | .block .conditional r t, .block .conditional _ u => do
    let (merged, _, _) ← inScope (merge r around t u)
    return .block .conditional r merged
  | .block .conditional r t, _ => mergeConditional merge around .left r t b
  | _, .block .conditional r t => mergeConditional merge around .right r t a
  | .block .loop r t, .block .loop _ u => do
    let (merged, _, _) ← inScope (merge r around t u)
    if !merged.same t then reshape
    return .block .loop r merged
  | .block .loop r t, .element .. => absorb merge around .right r t [b]
  | .element .., .block .loop r t => absorb merge around .left r t [a]
  | .slot .html r, .element .. => do
    put .right r.key (.text (← markup b))
    return a
  | .element .., .slot .html r => do
    put .left r.key (.text (← markup a))
    return b
  | .element s cs, .element t ds => mergeElements α merge chain s t cs ds
  | .literal .text v, .literal .text w => mergeTexts chain around v w
  | .literal .text v, .slot k r =>
    if Score.isTextLike k then do
      put .left r.key (.text (Text.strip v))
      return b
    else mismatch a b
  | .slot k r, .literal .text w =>
    if Score.isTextLike k then do
      put .right r.key (.text (Text.strip w))
      return a
    else mismatch a b
  | .slot k _, .slot l _ => if k = l then return a else mismatch a b
  | .content, .content => return a
  | .literal .doctype v, .literal .doctype w =>
    if Text.lower (Text.strip v) == Text.lower (Text.strip w) then return a
    else throw (.doctypesDiffer v w)
  | .literal k _, .literal l _ => if k = l then return a else mismatch a b
  | _, _ => mismatch a b

def mergeNode : Nat → NodeMerger
  | 0 => fun _ _ _ _ => throw .outOfFuel
  | fuel + 1 => mergeStep α (mergeNode fuel)

/-- A bound on how deep merges nest. Between two levels of elements at most so many blocks are opened
one after the other as the runs of blocks in both trees allow. -/
def nesting (as bs : List Node) : Nat :=
  let depth := max (Node.elementDepthOfList as) (Node.elementDepthOfList bs)
  let blocks := max 1 (max (Node.blockDepthOfList as) (Node.blockDepthOfList bs))
  (depth + 1) * (2 * ((blocks + 1) * blocks + blocks) + 2) + 2

def nodes (chain : Scope) (around : Around) (a b : Node) : Merge Node :=
  mergeNode α (nesting [a] [b]) chain around a b

def lists (chain : Scope) (around : Around) (as bs : List Node) : Merge (List Node) :=
  mergeSiblings α (mergeNode α (nesting as bs)) chain around as bs

end Stencil.Merge
