import Stencil.Proofs.Classes
import Stencil.Proofs.Counting
import Stencil.Proofs.Node.Alike

namespace Stencil

def Attribute.size : Attribute → Nat
  | .fixed _ v => v.length + 2
  | _ => 2

theorem Attribute.two_le_size (a : Attribute) : 2 ≤ a.size := by
  cases a <;> simp [Attribute.size]

theorem Attribute.two_mul_length_le (attrs : List Attribute) :
    2 * attrs.length ≤ (attrs.map Attribute.size).sum := by
  induction attrs with
  | nil => exact Nat.le_refl 0
  | cons a attrs ih =>
    have hsize := a.two_le_size
    rw [List.map_cons, List.sum_cons, List.length_cons]
    omega

theorem Attribute.size_of_reference {a : Attribute} {r : Reference} (h : a.reference? = some r) : a.size = 2 := by
  cases a with
  | fixed => cases h
  | _ => rfl

namespace Node

mutual
def size : Node → Nat
  | literal _ v => v.length + 1
  | element t cs => (t.attrs.map Attribute.size).sum + sizeOfList cs + 1
  | block _ _ t => size t + 1
  | _ => 1

def sizeOfList : List Node → Nat
  | [] => 0
  | n :: rest => size n + sizeOfList rest
end

theorem size_pos (n : Node) : 0 < n.size := by
  cases n <;> simp [size]

theorem length_le_sizeOfList (ns : List Node) : ns.length ≤ sizeOfList ns := by
  induction ns with
  | nil => exact Nat.le_refl 0
  | cons n ns ih =>
    have hn := n.size_pos
    rw [List.length_cons, sizeOfList]
    omega

theorem size_le_sizeOfList {n : Node} {ns : List Node} (h : n ∈ ns) : n.size ≤ sizeOfList ns := by
  induction ns with
  | nil => cases h
  | cons m ns ih =>
    rw [sizeOfList]
    rcases List.mem_cons.mp h with rfl | h
    · exact Nat.le_add_right _ _
    · exact (ih h).trans (Nat.le_add_left _ _)

end Node

namespace Score

open Grade Counting

variable {α : Type} [Grade α] [Counting α] {structural : Bool}

theorem counts_one : Counts (one : α) 1 :=
  counts_ofNat (fits_mono (by omega) fits_three)

theorem counts_zero : Counts (zero : α) 0 :=
  counts_ofNat (fits_mono (by omega) fits_three)

theorem counts_mean {x : α} (hx : Counts x 1) : Counts ((one + x) / ofNat 2) 1 := by
  have htwo : Fits α 2 := fits_mono (by omega) fits_three
  exact counts_div (by omega) htwo (counts_add htwo counts_one hx)

theorem counts_textSimilarity {v : String} (h : Fits α v.length) : Counts (textSimilarity v v : α) 1 := by
  unfold textSimilarity
  rw [Nat.max_self]
  dsimp only
  split
  · exact counts_one
  · next hlength =>
    have hdistance : Text.editDistance v v = 0 := by simp [Text.editDistance]
    have hsub : Counts (one - ofNat 0 / ofNat v.length : α) 1 :=
      counts_sub (Nat.pos_of_ne_zero hlength) h
    rw [hdistance, if_pos (zero_lt hsub)]
    exact hsub

theorem unshared_self (classes : List String) : unshared classes classes = ([], []) := by
  induction classes with
  | nil => rfl
  | cons c classes ih => simp [unshared, ih]

theorem counts_classListSimilarity {classes : List String} (h : Fits α classes.length) :
    Counts (classListSimilarity classes classes : α) 1 := by
  unfold classListSimilarity
  rw [Nat.max_self]
  dsimp only
  split
  · exact counts_one
  · next hlength =>
    rw [unshared_self]
    exact counts_div (Nat.pos_of_ne_zero hlength) h (counts_ofNat h)

theorem counts_valueSimilarity {a b : Attribute} (hab : a.Alike b)
    (hboolean : booleanAttributes.contains a.name = false) (h : Fits α a.size) :
    Counts (valueSimilarity structural a.name a b : α) 1 := by
  cases a with
  | fixed n v =>
    cases b with
    | fixed m w =>
      have hlength : Fits α v.length := fits_mono (Nat.le_add_right _ _) h
      rw [Attribute.name] at hboolean
      rw [Attribute.Alike, Merge.sameAttributeValue, hboolean] at hab
      by_cases hclass : (n == "class") = true
      · rw [hclass] at hab
        have hclasses : classList (some v) = classList (some w) := by simpa using hab
        simp only [valueSimilarity, Attribute.name, hclass, if_true, ← hclasses]
        exact counts_classListSimilarity (fits_mono (length_classList_le v) hlength)
      · rw [Bool.not_eq_true] at hclass
        rw [hclass] at hab
        have hvalue : v = w := by simpa using hab
        simp only [valueSimilarity, Attribute.name, hclass, Bool.false_eq_true, if_false, ← hvalue]
        split
        · exact counts_one
        · exact counts_textSimilarity hlength
    | _ => exact hab.elim
  | _ => exact counts_one

theorem counts_attributeSum {other : Tag} {attrs : List Attribute} {sum : α} (weight : Nat)
    (hall : ∀ a ∈ attrs, ∃ b, other.attr? a.name = some b ∧ a.Alike b)
    (h : Fits α (weight + (attrs.map Attribute.size).sum)) (hsum : Counts sum weight) :
    Counts (attributeSum structural other sum weight attrs).1 (weight + 2 * attrs.length) ∧
      (attributeSum structural other sum weight attrs).2 = weight + 2 * attrs.length := by
  induction attrs generalizing sum weight with
  | nil => exact ⟨hsum, rfl⟩
  | cons a attrs ih =>
    obtain ⟨b, hb, hab⟩ := hall a List.mem_cons_self
    have hsize := a.two_le_size
    rw [List.map_cons, List.sum_cons] at h
    have hgain : Counts (if booleanAttributes.contains a.name then ofNat 2
        else one + valueSimilarity structural a.name a b : α) 2 := by
      have htwo : Fits α 2 := fits_mono (by omega) fits_three
      split
      · exact counts_ofNat htwo
      · next hboolean =>
        have hvalue : Fits α a.size := fits_mono (by omega) h
        exact counts_add htwo counts_one (counts_valueSimilarity hab (by simpa using hboolean) hvalue)
    rw [attributeSum, hb]
    dsimp only
    have hstep := ih (weight + 2) (fun c hc => hall c (List.mem_cons_of_mem _ hc))
      (fits_mono (by omega) h) (counts_add (fits_mono (by omega) h) hsum hgain)
    have htotal : weight + 2 * (attrs.length + 1) = weight + 2 + 2 * attrs.length := by omega
    rw [List.length_cons, htotal]
    exact hstep

theorem counts_attributeScore {s t : Tag} (hst : s.Alike t) (h : Fits α (s.attrs.map Attribute.size).sum) :
    Counts (attributeScore structural s t : α) 1 := by
  have hnone : (t.attrs.filter fun b => (s.attr? b.name).isNone) = [] := by
    rw [List.filter_eq_nil_iff]
    intro b hb
    obtain ⟨a, ha, -⟩ := hst.known b hb
    simp [ha]
  have hfits : Fits α (0 + (s.attrs.map Attribute.size).sum) := by rwa [Nat.zero_add]
  have hzero : Counts (zero : α) 0 := counts_zero
  have hsum : Counts (attributeSum structural t (zero : α) 0 s.attrs).1 (0 + 2 * s.attrs.length) ∧ _ :=
    counts_attributeSum 0 hst.found hfits hzero
  rw [Nat.zero_add] at hsum
  have hweight := Attribute.two_mul_length_le s.attrs
  unfold attributeScore
  rw [hnone, List.length_nil]
  dsimp only
  rw [Nat.add_zero, hsum.2]
  split
  · exact counts_one
  · next hne => exact counts_div (Nat.pos_of_ne_zero hne) (fits_mono hweight h) hsum.1

mutual
theorem counts_score : (a b : Node) → a.Alike b → Fits α a.size → Counts (score structural a b : α) 1
  | .literal k v, b, hab, h => by
    cases b with
    | literal l w =>
      obtain ⟨rfl, rfl⟩ := hab
      have hmean : Counts ((one + textSimilarity v v) / ofNat 2 : α) 1 :=
        counts_mean (counts_textSimilarity (fits_mono (Nat.le_succ _) h))
      cases k with
      | text =>
        simp only [score, Node.core, leafScore]
        split
        · exact counts_one
        · exact hmean
      | _ =>
        simp only [score, Node.core, leafScore, if_true]
        exact hmean
    | _ => exact hab.elim
  | .slot k r, b, hab, h => by
    cases b with
    | slot l q =>
      obtain ⟨rfl, rfl⟩ := hab
      simp only [score, Node.core, leafScore, if_true, beq_self_eq_true]
      exact counts_one
    | _ => exact hab.elim
  | .content, b, hab, _ => by
    cases b with
    | content => exact counts_one
    | _ => exact hab.elim
  | .foreign, _, hab, _ => hab.elim
  | .block k r t, b, hab, h => by
    cases b with
    | block l q u =>
      rw [score, score_block_right]
      exact counts_score t u hab.2.2 (fits_mono (Nat.le_succ _) h)
    | _ => exact hab.elim
  | .element s cs, b, hab, h => by
    cases b with
    | element t ds =>
      rw [Node.size] at h
      have hattrs : Counts (attributeScore structural s t : α) 1 :=
        counts_attributeScore hab.1 (fits_mono (by omega) h)
      have hsum : Counts (childrenSum structural (zero : α) cs ds) (0 + cs.length) :=
        counts_childrenSum cs ds hab.2 (fits_mono (by omega) h) counts_zero
      rw [Nat.zero_add] at hsum
      have hlength := Node.length_le_sizeOfList cs
      simp only [score, Node.core, hab.1.name, beq_self_eq_true, if_true, ← hab.2.length_eq, Nat.max_self]
      have hchildren : Counts (if cs.length = 0 then one
          else childrenSum structural zero cs ds / ofNat cs.length : α) 1 := by
        split
        · exact counts_one
        · next hne => exact counts_div (Nat.pos_of_ne_zero hne) (fits_mono (by omega) h) hsum
      have htwo : Fits α 2 := fits_mono (by omega) fits_three
      exact counts_div (by omega) fits_three
        (counts_add fits_three (counts_add htwo counts_one hattrs) hchildren)
    | _ => exact hab.elim

theorem counts_childrenSum : (as bs : List Node) → Node.AlikeList as bs → {n : Nat} → {sum : α} →
    Fits α (n + Node.sizeOfList as) → Counts sum n →
    Counts (childrenSum structural sum as bs) (n + as.length)
  | [], bs, hab, n, sum, _, hsum => by
    cases bs with
    | nil => rwa [childrenSum.eq_def]
    | cons => exact hab.elim
  | a :: as, bs, hab, n, sum, h, hsum => by
    cases bs with
    | nil => exact hab.elim
    | cons b bs =>
      have hpos := a.size_pos
      have hlength := Node.length_le_sizeOfList as
      rw [Node.sizeOfList] at h
      have hscore : Counts (score structural a b : α) 1 := counts_score a b hab.1 (fits_mono (by omega) h)
      have hrest := counts_childrenSum as bs hab.2 (n := n + 1) (fits_mono (by omega) h)
        (counts_add (fits_mono (by omega) h) hsum hscore)
      rw [childrenSum, List.length_cons, Nat.add_comm as.length 1, ← Nat.add_assoc]
      exact hrest
end

theorem isOne_score_self {a : Node} (h : a.Literal) (hfits : Fits α a.size) :
    Grade.isOne (score structural a a : α) = true := by
  have halike := Node.alike_refl a (Node.Literal.proper a h) (Node.Literal.hasForeign a h)
  exact Counting.isOne (counts_score a a halike hfits)

end Score

end Stencil
