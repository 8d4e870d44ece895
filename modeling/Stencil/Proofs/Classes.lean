import Mathlib.Data.List.Basic
import Stencil.Signature

namespace Stencil

namespace Text

theorem length_splitWhere_le (p : Char → Bool) (cs : List Char) :
    ((splitWhere p cs).filter fun w => !w.isEmpty).length ≤ cs.length := by
  induction cs with
  | nil => exact Nat.le_refl 0
  | cons c cs ih =>
    rw [splitWhere] at ih ⊢
    rw [List.foldr_cons, List.length_cons]
    split
    · next piece rest hpieces =>
      rw [hpieces] at ih
      split
      · rw [List.filter_cons_of_neg (by simp)]
        omega
      · have hrest : (rest.filter fun w => !w.isEmpty).length ≤
            ((piece :: rest).filter fun w => !w.isEmpty).length :=
          ((List.sublist_cons_self piece rest).filter _).length_le
        rw [List.filter_cons_of_pos (by simp), List.length_cons]
        omega
    · simp

theorem length_words_le (s : String) : (words s).length ≤ s.length := by
  rw [words, List.length_map, ← String.length_toList]
  exact length_splitWhere_le isBlank s.toList

end Text

section Reps

variable {β : Type}

theorem eraseReps_cons [BEq β] (x : β) (rest : List β) :
    (x :: rest).eraseReps = List.eraseRepsBy.loop (· == ·) x rest [] := rfl

theorem eraseRepsBy_loop [BEq β] (x : β) (rest seen : List β) :
    List.eraseRepsBy.loop (· == ·) x rest seen = seen.reverse ++ (x :: rest).eraseReps := by
  induction rest generalizing x seen with
  | nil => rw [List.eraseRepsBy.loop, List.reverse_cons, eraseReps_cons, List.eraseRepsBy.loop]; rfl
  | cons y rest ih =>
    rw [eraseReps_cons, List.eraseRepsBy.loop, List.eraseRepsBy.loop]
    split
    · rw [ih, ih x []]
      rfl
    · rw [ih, ih y [x], List.reverse_cons, List.append_assoc]
      rfl

theorem eraseReps_cons_cons [BEq β] (x y : β) (rest : List β) :
    (x :: y :: rest).eraseReps = if x == y then (x :: rest).eraseReps else x :: (y :: rest).eraseReps := by
  rw [eraseReps_cons, List.eraseRepsBy.loop]
  by_cases hxy : (x == y) = true
  · rw [if_pos hxy]
    simp only [hxy]
    rfl
  · rw [if_neg hxy]
    simp only [hxy]
    exact eraseRepsBy_loop y rest [x]

theorem eraseReps_sublist [BEq β] (xs : List β) : xs.eraseReps.Sublist xs := by
  cases xs with
  | nil => exact List.Sublist.refl []
  | cons x rest =>
    induction rest generalizing x with
    | nil => exact List.Sublist.refl [x]
    | cons y rest ih =>
      rw [eraseReps_cons_cons]
      split
      · exact (ih x).trans ((List.sublist_cons_self y rest).cons_cons x)
      · exact (ih y).cons_cons x

theorem mem_eraseReps [BEq β] [LawfulBEq β] {z : β} {xs : List β} : z ∈ xs.eraseReps ↔ z ∈ xs := by
  cases xs with
  | nil => exact Iff.rfl
  | cons x rest =>
    induction rest generalizing x with
    | nil => exact Iff.rfl
    | cons y rest ih =>
      rw [eraseReps_cons_cons]
      split
      · next hxy =>
        rw [ih, eq_of_beq hxy]
        simp
      · rw [List.mem_cons, ih]
        exact List.mem_cons.symm

theorem nodup_eraseReps [BEq β] [LawfulBEq β] {le : β → β → Prop} (hantisymm : ∀ x y, le x y → le y x → x = y)
    {xs : List β} (h : xs.Pairwise le) : xs.eraseReps.Nodup := by
  cases xs with
  | nil => exact List.nodup_nil
  | cons x rest =>
    induction rest generalizing x with
    | nil => exact List.pairwise_singleton _ x
    | cons y rest ih =>
      obtain ⟨hx, hrest⟩ := List.pairwise_cons.mp h
      rw [eraseReps_cons_cons]
      split
      · apply ih
        exact List.pairwise_cons.mpr ⟨fun z hz => hx z (List.mem_cons_of_mem y hz), (List.pairwise_cons.mp hrest).2⟩
      · next hxy =>
        rw [List.nodup_cons, mem_eraseReps]
        refine ⟨fun hmem => hxy (beq_iff_eq.mpr ?_), ih y hrest⟩
        apply hantisymm x y (hx y List.mem_cons_self)
        rcases List.mem_cons.mp hmem with rfl | hmem
        · exact hx x List.mem_cons_self
        · exact (List.pairwise_cons.mp hrest).1 x hmem

end Reps

theorem length_classList_le (v : String) : (classList (some v)).length ≤ v.length := by
  have hsorted : (classList (some v)).length ≤
      ((Text.words v).mergeSort fun a b => decide (a ≤ b)).length :=
    (eraseReps_sublist _).length_le
  rw [List.length_mergeSort] at hsorted
  exact Nat.le_trans hsorted (Text.length_words_le v)

theorem words_sorted (v : String) :
    ((Text.words v).mergeSort fun a b => decide (a ≤ b)).Pairwise (· ≤ ·) := by
  have hbool : ((Text.words v).mergeSort fun a b => decide (a ≤ b)).Pairwise
      fun a b => decide (a ≤ b) = true := List.pairwise_mergeSort
    (fun a b c hab hbc => by
      rw [decide_eq_true_eq] at hab hbc ⊢
      exact String.le_trans hab hbc)
    (fun a b => by
      rw [Bool.or_eq_true, decide_eq_true_eq, decide_eq_true_eq]
      exact String.le_total a b)
    (Text.words v)
  exact hbool.imp fun h => of_decide_eq_true h

theorem classList_pairwise (value : Option String) : (classList value).Pairwise (· ≤ ·) :=
  (words_sorted (value.getD "")).sublist (eraseReps_sublist _)

theorem classList_nodup (value : Option String) : (classList value).Nodup :=
  nodup_eraseReps (fun _ _ => String.le_antisymm) (words_sorted (value.getD ""))

theorem mem_classList {c v : String} : c ∈ classList (some v) ↔ c ∈ Text.words v :=
  mem_eraseReps.trans List.mem_mergeSort

theorem classList_eq_iff {v w : String} :
    classList (some v) = classList (some w) ↔ ∀ c, c ∈ Text.words v ↔ c ∈ Text.words w := by
  constructor
  · intro h c
    rw [← mem_classList, h, mem_classList]
  · intro h
    have hperm : (classList (some v)).Perm (classList (some w)) := by
      apply (List.perm_ext_iff_of_nodup (classList_nodup _) (classList_nodup _)).mpr
      intro c
      rw [mem_classList, mem_classList]
      exact h c
    exact hperm.eq_of_pairwise (fun _ _ _ _ => String.le_antisymm) (classList_pairwise _) (classList_pairwise _)

end Stencil
