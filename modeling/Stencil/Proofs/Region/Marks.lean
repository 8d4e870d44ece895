import Stencil.Proofs.Failure
import Stencil.Proofs.Markup
import Stencil.Region

namespace Stencil

namespace Node

mutual
def contentMarks : Node → Nat
  | element _ cs => contentMarksOfList cs
  | block _ _ t => contentMarks t
  | content => 1
  | _ => 0

def contentMarksOfList : List Node → Nat
  | [] => 0
  | n :: rest => contentMarks n + contentMarksOfList rest
end

theorem contentMarksOfList_append (as bs : List Node) :
    contentMarksOfList (as ++ bs) = contentMarksOfList as + contentMarksOfList bs := by
  induction as with
  | nil => exact (Nat.zero_add _).symm
  | cons a as ih => rw [List.cons_append, contentMarksOfList, ih, contentMarksOfList, Nat.add_assoc]

theorem contentMarksOfList_reverse (ns : List Node) :
    contentMarksOfList ns.reverse = contentMarksOfList ns := by
  induction ns with
  | nil => rfl
  | cons n ns ih =>
    rw [List.reverse_cons, contentMarksOfList_append, ih, contentMarksOfList, contentMarksOfList,
      contentMarksOfList, Nat.add_zero, Nat.add_comm]

theorem contentMarks_of_isBlankText {n : Node} (h : n.isBlankText = true) : n.contentMarks = 0 := by
  cases n <;> first | rfl | cases h

mutual
theorem contentMarks_of_literal : (n : Node) → n.Literal → n.contentMarks = 0
  | literal .., _ => rfl
  | element _ cs, h => contentMarksOfList_of_literal cs h.2.2

theorem contentMarksOfList_of_literal : (ns : List Node) → LiteralList ns → contentMarksOfList ns = 0
  | [], _ => rfl
  | n :: ns, h => by
    rw [contentMarksOfList, contentMarks_of_literal n h.1, contentMarksOfList_of_literal ns h.2]
end

end Node

namespace Page

open Node

def contentMarks (p : Page) : Nat :=
  contentMarksOfList p.layout + contentMarksOfList p.contents

def childLocus? (l : Locus) (before after : List Node) : Node → Option Locus
  | .element t cs => some ⟨t, cs, before, after, some l⟩
  | _ => none

def passChild (m : RegionMarks) (here : Option Locus) (n : Node) (current : Option (List Node)) :
    List (List Node) × Option (List Node) :=
  match if here.any m.before then none else current with
  | some region => ([], some (region ++ [n]))
  | none => (current.toList, if here.any m.after then some [] else none)

def regionsFrom (m : RegionMarks) (l : Locus) (before : List Node) (current : Option (List Node)) :
    List Node → List (List Node)
  | [] => current.toList
  | n :: rest =>
    let (ended, current) := passChild m (childLocus? l before rest n) n current
    ended ++ regionsFrom m l (n :: before) current rest

def regions (m : RegionMarks) (l : Locus) : List (List Node) :=
  regionsFrom m l [] (if m.inside l then some [] else none) l.children

def filled (rs : List (List Node)) : List (List Node) :=
  rs.dropWhile fun r => r.all isBlankText

def regionCount (m : RegionMarks) (ls : List Locus) : Nat :=
  (ls.flatMap fun l => regions m l).length

def filledCount (m : RegionMarks) (ls : List Locus) : Nat :=
  (ls.flatMap fun l => filled (regions m l)).length

variable {m : RegionMarks} {l : Locus} {n : Node} {r : List Node} {rs : List (List Node)}

theorem filledCount_append (as bs : List Locus) :
    filledCount m (as ++ bs) = filledCount m as + filledCount m bs := by
  rw [filledCount, List.flatMap_append, List.length_append, ← filledCount, ← filledCount]

theorem regionCount_append (as bs : List Locus) :
    regionCount m (as ++ bs) = regionCount m as + regionCount m bs := by
  rw [regionCount, List.flatMap_append, List.length_append, ← regionCount, ← regionCount]

theorem filledCount_cons (ls : List Locus) :
    filledCount m (l :: ls) = (filled (regions m l)).length + filledCount m ls := by
  rw [filledCount, List.flatMap_cons, List.length_append, ← filledCount]

theorem regionCount_cons (ls : List Locus) :
    regionCount m (l :: ls) = (regions m l).length + regionCount m ls := by
  rw [regionCount, List.flatMap_cons, List.length_append, ← regionCount]

def GoesOn (current : Option (List Node)) (rs : List (List Node)) : Prop :=
  ∀ r, current = some r → ∃ rest later, rs = (r ++ rest) :: later

theorem passChild_none {here : Option Locus} :
    passChild m here n none = ([], if here.any m.after then some [] else none) := by
  rw [passChild, ite_self, Option.toList_none]

theorem passChild_of_goesOn {here : Option Locus} (h : here.any m.before = false) :
    passChild m here n (some r) = ([], some (r ++ [n])) := by
  rw [passChild, h, if_neg Bool.false_ne_true]

theorem passChild_of_ends {here : Option Locus} (h : here.any m.before = true) :
    passChild m here n (some r) = ([r], if here.any m.after then some [] else none) := by
  rw [passChild, h, if_pos rfl, Option.toList_some]

theorem regionsFrom_goesOn (cs : List Node) (before : List Node) (current : Option (List Node)) :
    GoesOn current (regionsFrom m l before current cs) := by
  induction cs generalizing before current with
  | nil =>
    rintro r rfl
    exact ⟨[], [], by rw [List.append_nil]; rfl⟩
  | cons n cs ih =>
    rintro r rfl
    rw [regionsFrom]
    cases hends : (childLocus? l before cs n).any m.before with
    | true =>
      rw [passChild_of_ends hends]
      exact ⟨[], _, by rw [List.append_nil]; rfl⟩
    | false =>
      rw [passChild_of_goesOn hends]
      obtain ⟨rest, later, h⟩ := ih (n :: before) (some (r ++ [n])) _ rfl
      exact ⟨n :: rest, later, by simpa only [List.nil_append, List.append_assoc, List.singleton_append] using h⟩

theorem filled_cons_of_blank (h : r.all isBlankText = true) : filled (r :: rs) = filled rs :=
  List.dropWhile_cons_of_pos h

theorem filled_cons_of_not_blank (h : r.all isBlankText = false) : filled (r :: rs) = r :: rs :=
  List.dropWhile_cons_of_neg (by rw [h]; exact Bool.false_ne_true)

end Page

end Stencil
