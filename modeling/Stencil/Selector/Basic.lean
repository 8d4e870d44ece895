import Stencil.Selector.Locus
import Stencil.Text.Lower

namespace Stencil

abbrev Selector := Locus → Bool

namespace Selector

open Text

inductive Combinator
  | descendant | child | next | later
  deriving DecidableEq

inductive Comparison
  | equals | word | dashed | startsWith | endsWith | contains
  deriving DecidableEq

def always : Selector := fun _ => true

def never : Selector := fun _ => false

def both (s t : Selector) : Selector := fun l => s l && t l

def any (ss : List Selector) : Selector := fun l => ss.any fun s => s l

def negate (s : Selector) : Selector := fun l => !s l

def named (name : String) : Selector := fun l => l.tag.name == lowerBasic name

def hasId (id : String) : Selector := fun l => (l.tag.fixedValue? "id").getD "" == id

def parts (value : String) : List String :=
  ((splitWhere isMarkupBlank value.toList).filter fun w => !w.isEmpty).map String.ofList

def hasClass (cls : String) : Selector := fun l =>
  (parts ((l.tag.fixedValue? "class").getD "")).contains cls

def dropLastFeed (s : String) : String :=
  match s.toList.reverse with
  | '\n' :: rest => String.ofList rest.reverse
  | _ => s

def startsWith (pre s : String) : Bool := pre.toList.isPrefixOf s.toList

def endsWith (suf s : String) : Bool := suf.toList.isSuffixOf s.toList

def occursIn (part : List Char) : List Char → Bool
  | [] => part.isEmpty
  | c :: rest => part.isPrefixOf (c :: rest) || occursIn part rest

def compare (c : Comparison) (wanted value : String) : Bool :=
  match c with
  | .equals => value == wanted || dropLastFeed value == wanted
  | .word => !wanted.isEmpty && !wanted.toList.any isMarkupBlank && (parts value).contains wanted
  | .dashed =>
    value == wanted || dropLastFeed value == wanted || startsWith (wanted ++ "-") value
  | .startsWith => startsWith wanted value
  | .endsWith => endsWith wanted value || endsWith wanted (dropLastFeed value)
  | .contains => occursIn wanted.toList value.toList

def attributeValue? (name : String) (l : Locus) : Option String :=
  l.tag.attrs.findSome? fun
    | .fixed n v => if lowerBasic n == lowerBasic name then some v else none
    | _ => none

def hasAttribute (name : String) : Selector := fun l => (attributeValue? name l).isSome

def attributeIs (name : String) (c : Comparison) (ignoreCase : Bool) (wanted : String) : Selector :=
  fun l => match attributeValue? name l with
    | some v =>
      if ignoreCase then compare c (lower wanted) (lower v) else compare c wanted v
    | none => false

def isNth (step offset : Int) (position : Nat) : Bool :=
  let d := (position : Int) - offset
  if step = 0 then d == 0 else d % step == 0 && 0 ≤ d / step

def nth (step offset : Int) (fromEnd : Bool) (counts : Locus → Locus → Bool) : Selector := fun l =>
  let others := if fromEnd then l.following else l.previous
  counts l l && isNth step offset ((others.filter (counts l)).length + 1)

def sameType (l m : Locus) : Bool := l.tag.name == m.tag.name

def isEmptyNode : Node → Bool
  | .element .. => false
  | .literal .text v => v.toList.all isMarkupBlank
  | _ => true

def empty : Selector := fun l => l.children.all isEmptyNode

def root : Selector := fun l =>
  (match l.above with
    | some d => d.above.isNone
    | none => false) &&
  (l.before ++ l.after).all fun
    | .element .. => false
    | .literal .text v => allBlank v
    | .literal .cdata _ => false
    | _ => true

def scope : Selector := fun l =>
  (match l.above with
    | some d => d.above.isNone
    | none => false) && l.previous.isEmpty

def preceded (far : Selector) (c : Combinator) (near : Selector) : Selector := fun l =>
  near l && match c with
    | .descendant => l.ancestors.any far
    | .child => (l.above.map far).getD false
    | .next => (l.previous.head?.map far).getD false
    | .later => l.previous.any far

def related (c : Combinator) (s : Selector) : Selector := fun l =>
  match c with
  | .descendant => l.descendants.any s
  | .child => l.childElements.any s
  | .next => (l.following.head?.map s).getD false
  | .later => l.following.any s

end Selector

end Stencil
