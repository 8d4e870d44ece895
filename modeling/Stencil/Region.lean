import Stencil.Failure
import Stencil.Markup.Tree
import Stencil.Selector.Parser

namespace Stencil

structure RegionConfig where
  inside : Option String := none
  after : Option String := none
  before : Option String := none

structure RegionMarks where
  inside : Selector := Selector.never
  after : Selector := Selector.never
  before : Selector := Selector.never

namespace RegionMarks

def selector? (s : Option String) : Except Failure Selector :=
  match s with
  | none => .ok Selector.never
  | some s =>
    if s.isEmpty then .ok Selector.never
    else match Selector.ofText? s with
      | some sel => .ok sel
      | none => .error (.badSelector s)

def ofConfig (c : RegionConfig) : Except Failure RegionMarks := do
  let inside ← selector? c.inside
  let after ← selector? c.after
  let before ← selector? c.before
  return { inside, after, before }

end RegionMarks

structure Page where
  layout : List Node
  contents : List Node := []

namespace Page

structure Cut where
  kept : List Node := []
  taken : List Node := []
  reading : Bool := false
  found : Option (List Node) := none

namespace Cut

def start (c : Cut) : Cut :=
  { c with reading := true, kept := .content :: c.kept }

def stop (c : Cut) : Except Failure Cut :=
  let c := { c with reading := false }
  match c.taken, c.found with
  | [], _ => .ok c
  | _ :: _, some _ => .error .secondRegion
  | last :: rest, none =>
    if last.isBlankText then
      let taken := .text "\n" :: rest
      .ok { c with kept := last :: c.kept, taken, found := some taken.reverse }
    else .ok { c with found := some c.taken.reverse }

def put (c : Cut) (n : Node) : Cut :=
  if c.reading then
    match n.isBlankText && c.taken.isEmpty, c.kept with
    | true, mark :: rest => { c with kept := mark :: n :: rest }
    | _, _ => { c with taken := n :: c.taken }
  else { c with kept := n :: c.kept }

end Cut

mutual
def cutNode (m : RegionMarks) (above : Locus) (before after : List Node)
    (found : Option (List Node)) : Node → Except Failure (Node × Option (List Node))
  | .element t cs => do
    let l : Locus := ⟨t, cs, before, after, some above⟩
    let first : Cut := { found }
    let cut ← cutChildren m l [] (if m.inside l then first.start else first) cs
    let cut ← if cut.reading then cut.stop else .ok cut
    return (.element t cut.kept.reverse, cut.found)
  | n => .ok (n, found)

def cutChildren (m : RegionMarks) (l : Locus) (before : List Node) (cut : Cut) :
    List Node → Except Failure Cut
  | [] => .ok cut
  | n :: rest => do
    let (converted, found) ← cutNode m l before rest cut.found n
    let cut := { cut with found }
    let mark? : Option Locus := match n with
      | .element t cs => some ⟨t, cs, before, rest, some l⟩
      | _ => none
    let cut ← if cut.reading && mark?.any m.before then cut.stop else .ok cut
    let cut := cut.put converted
    let cut := if !cut.reading && mark?.any m.after then cut.start else cut
    cutChildren m l (n :: before) cut rest
end

def cutRoots (m : RegionMarks) (doc : Locus) (before : List Node) (kept : List Node)
    (found : Option (List Node)) : List Node → Except Failure Page
  | [] => .ok { layout := kept.reverse, contents := found.getD [] }
  | n :: rest => do
    let (converted, found) ← cutNode m doc before rest found n
    cutRoots m doc (n :: before) (converted :: kept) found rest

def ofNodes (m : RegionMarks) (roots : List Node) : Except Failure Page :=
  cutRoots m (Locus.document roots) [] [] none roots

def ofMarkup (markup : String) (config : RegionConfig) : Except Failure Page := do
  let roots := Markup.parse markup
  let marks ← RegionMarks.ofConfig config
  ofNodes marks roots

end Page

def rootTag? (nodes : List Node) : Option Tag :=
  nodes.findSome? Node.tag?

end Stencil
