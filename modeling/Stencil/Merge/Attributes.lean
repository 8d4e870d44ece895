import Stencil.Merge.State
import Stencil.Node.References
import Stencil.Score.Basic

namespace Stencil.Merge

def sameAttributeValue (name v w : String) : Bool :=
  if Score.booleanAttributes.contains name then true
  else if name == "class" then classList (some v) == classList (some w)
  else v == w

def noRule {β : Type} : Merge β := throw (.unsupportedAttribute "Unknown")

def lonelyAttribute (chain : Scope) (side : Side) (owner : Tag) : Attribute → Merge Attribute
  | .fixed n v => do
    let key ← newKey chain owner n .attr owner n
    put side key (.text v)
    put side.other key .null
    return .optional n (reference chain key)
  | .slot n r | .optional n r => do
    put side.other (Reference.key r) .null
    return .optional n r
  | .foreign => noRule

def pairAttribute (chain : Scope) (owner : Tag) (a b : Attribute) : Merge Attribute :=
  match a, b with
  | .slot n r, .slot _ _ => return .slot n r
  | .slot n r, .optional _ _ | .optional n r, .slot _ _ | .optional n r, .optional _ _ =>
    return .optional n r
  | .slot _ r, .fixed _ w | .optional _ r, .fixed _ w => do
    put .right (Reference.key r) (.text w)
    return a
  | .fixed _ v, .slot _ r | .fixed _ v, .optional _ r => do
    put .left (Reference.key r) (.text v)
    return b
  | .fixed n v, .fixed _ w =>
    if sameAttributeValue n v w then return .fixed n v
    else do
      let key ← newKey chain owner n .attr owner n
      put .left key (.text v)
      put .right key (.text w)
      debug ("Attribute variable " ++ key ++ ": " ++ Text.quoted v ++ " / " ++ Text.quoted w)
      return .slot n (reference chain key)
  | _, _ => noRule

def leftAttributes (chain : Scope) (s t : Tag) : List Attribute → Merge (List Attribute)
  | [] => return []
  | a :: rest => do
    let merged ← match t.attr? a.name with
      | some b => pairAttribute chain s a b
      | none => lonelyAttribute chain .left s a
    let others ← leftAttributes chain s t rest
    return merged :: others

def rightAttributes (chain : Scope) (s t : Tag) : List Attribute → Merge (List Attribute)
  | [] => return []
  | b :: rest =>
    if (s.attr? b.name).isSome then rightAttributes chain s t rest
    else do
      let merged ← lonelyAttribute chain .right t b
      let others ← rightAttributes chain s t rest
      return merged :: others

def mergeAttributes (chain : Scope) (s t : Tag) : Merge (List Attribute) := do
  let left ← leftAttributes chain s t s.attrs
  let right ← rightAttributes chain s t t.attrs
  return left ++ right

end Stencil.Merge
