import Stencil.Node.Basic
import Stencil.Score.Grade
import Stencil.Signature
import Stencil.Text.EditDistance

/-!
How alike two nodes are, from 0 to 1. A score of 1 means that the two can be merged without a new
slot. In the structural mode, texts and attribute values other than classes always match, since in
the items of a list they become slots of the template.
-/

namespace Stencil.Score

open Grade

variable {α : Type} [Grade α]

def textSimilarity (a b : String) : α :=
  let longest := max a.length b.length
  if longest = 0 then one
  else
    let s : α := one - ofNat (Text.editDistance a b) / ofNat longest
    if zero < s then s else zero

def classFamily (cls : String) : String :=
  String.ofList ((cls.toList.reverse.dropWhile (· != '-')).drop 1).reverse

def closest (cls : String) (candidates : List String) : Option (Nat × String × α) :=
  (candidates.zipIdx.foldl (fun (best : Option (Nat × String × α)) (c, i) =>
    let s : α := textSimilarity cls c
    match best with
    | some (_, _, t) => if t < s then some (i, c, s) else best
    | none => some (i, c, s)) none)

def creditLeftovers (credit : α) : List String → List String → α
  | [], _ => credit
  | cls :: rest, remaining =>
    match closest (α := α) cls remaining with
    | none => credit
    | some (i, matched, s) =>
      let family := classFamily cls
      let s := if !family.isEmpty && family == classFamily matched then (one + s) / ofNat 2 else s
      creditLeftovers (credit + s) rest (remaining.eraseIdx i)

def unshared : List String → List String → List String × List String
  | [], remaining => ([], remaining)
  | cls :: rest, remaining =>
    if remaining.contains cls then unshared rest (remaining.erase cls)
    else
      let (leftovers, remaining) := unshared rest remaining
      (cls :: leftovers, remaining)

def classListSimilarity (a b : List String) : α :=
  let longest := max a.length b.length
  if longest = 0 then one
  else
    let (leftovers, remaining) := unshared a b
    creditLeftovers (ofNat (a.length - leftovers.length)) leftovers remaining / ofNat longest

def booleanAttributes : List String :=
  ["allowfullscreen", "async", "autofocus", "autoplay", "checked", "controls", "default", "defer",
   "disabled", "formnovalidate", "hidden", "inert", "ismap", "itemscope", "loop", "multiple",
   "muted", "nomodule", "novalidate", "open", "playsinline", "readonly", "required", "reversed",
   "selected"]

def valueSimilarity (structural : Bool) (name : String) : Attribute → Attribute → α
  | .fixed _ v, .fixed _ w =>
    if name == "class" then classListSimilarity (classList (some v)) (classList (some w))
    else if structural then one
    else textSimilarity v w
  | _, _ => one

def attributeSum (structural : Bool) (other : Tag) (sum : α) (weight : Nat) :
    List Attribute → α × Nat
  | [] => (sum, weight)
  | a :: rest =>
    match other.attr? a.name with
    | none => attributeSum structural other sum (weight + 1) rest
    | some b =>
      let gain : α :=
        if booleanAttributes.contains a.name then ofNat 2
        else one + valueSimilarity structural a.name a b
      attributeSum structural other (sum + gain) (weight + 2) rest

def attributeScore (structural : Bool) (s t : Tag) : α :=
  let (sum, weight) := attributeSum structural t (zero : α) 0 s.attrs
  let weight := weight + (t.attrs.filter fun b => (s.attr? b.name).isNone).length
  if weight = 0 then one else sum / ofNat weight

def isTextLike : SlotKind → Bool
  | .plain | .inlineMarkdown => true
  | _ => false

def leafScore (structural : Bool) : Node → Node → α
  | .literal .text v, .literal .text w =>
    if structural && !Text.allBlank v && !Text.allBlank w then one
    else (one + textSimilarity v w) / ofNat 2
  | .literal k v, .literal l w => if k = l then (one + textSimilarity v w) / ofNat 2 else zero
  | .literal .text _, .slot k _ => if isTextLike k then one else zero
  | .slot k _, .literal .text _ => if isTextLike k then one else zero
  | .slot .html _, .element t _ => if t.name == "svg" then one else zero
  | .element t _, .slot .html _ => if t.name == "svg" then one else zero
  | .slot k r, .slot l s => if k = l then (if r == s then one else half) else zero
  | .content, .content => one
  | _, _ => zero

mutual
def score (structural : Bool) : Node → Node → α
  | .block _ _ t, b => score structural t b
  | .element s cs, b =>
    match b.core with
    | .element t ds =>
      if s.name == t.name then
        let total : α := childrenSum structural zero cs ds
        let longest := max cs.length ds.length
        let children := if longest = 0 then one else total / ofNat longest
        (one + attributeScore structural s t + children) / ofNat 3
      else zero
    | other => leafScore structural (.element s []) other
  | .literal k v, b => leafScore structural (.literal k v) b.core
  | .slot k r, b => leafScore structural (.slot k r) b.core
  | .content, b => leafScore structural .content b.core
  | .foreign, b => leafScore structural .foreign b.core

def childrenSum (structural : Bool) (sum : α) : List Node → List Node → α
  | a :: as, b :: bs => childrenSum structural (sum + score structural a b) as bs
  | _, _ => sum
end

def childrenScore (structural : Bool) (as bs : List Node) : α :=
  let longest := max as.length bs.length
  if longest = 0 then one else childrenSum structural (zero : α) as bs / ofNat longest

def hasBetterPartner (first : Bool) (node : Node) (current : α) (others : List Node) : Bool :=
  others.any fun other =>
    current < if first then score false node other else score false other node

def isBestMatch (a b : Node) (current : α) (restA restB : List Node) : Bool :=
  zero < current && !hasBetterPartner true a current restB &&
    !hasBetterPartner false b current restA

def reachesThreshold (a b : Node) : Bool :=
  decide (loopThreshold ≤ (score true a b : α))

def repeatsFrom (current : Node) (position last : Nat) : List Node → Nat
  | [] => last
  | n :: rest =>
    match n with
    | .literal .text v =>
      if Text.allBlank v then repeatsFrom current (position + 1) last rest else last
    | .element _ _ =>
      if reachesThreshold (α := α) current n then
        repeatsFrom current (position + 1) (position + 1) rest
      else last
    | _ => last

def repeats (current : Node) (remaining : List Node) : Nat :=
  repeatsFrom (α := α) current 0 0 remaining

end Stencil.Score
