import Mathlib.Tactic.Positivity
import Stencil.Proofs.Score

namespace Stencil

/-- Grades that stand for rational numbers and are computed without rounding. -/
class Grade.Exact (α : Type) [Grade α] where
  value : α → Rat
  value_ofNat (n : Nat) : value (Grade.ofNat n) = n
  value_add (x y : α) : value (x + y) = value x + value y
  value_sub (x y : α) : value (x - y) = value x - value y
  value_div (x y : α) : value (x / y) = value x / value y
  lt_iff {x y : α} : x < y ↔ value x < value y
  isOne_iff {x : α} : Grade.isOne x = true ↔ value x = 1

instance : Grade.Exact Rat where
  value x := x
  value_ofNat _ := rfl
  value_add _ _ := rfl
  value_sub _ _ := rfl
  value_div _ _ := rfl
  lt_iff := Iff.rfl
  isOne_iff := by simp [Grade.isOne]

namespace Score

open Grade Exact

variable {α : Type} [Grade α] [Exact α]

@[simp]
theorem value_zero : value (zero : α) = 0 := by
  simp [zero, value_ofNat]

@[simp]
theorem value_one : value (one : α) = 1 := by
  simp [one, value_ofNat]

theorem textSimilarity_nonneg (a b : String) : 0 ≤ value (textSimilarity a b : α) := by
  unfold textSimilarity
  dsimp only
  split
  · simp
  · split
    · next h => exact (value_zero (α := α) ▸ (lt_iff.mp h)).le
    · simp

theorem closest_nonneg {cls c : String} {candidates : List String} {i : Nat} {s : α}
    (h : closest cls candidates = some (i, c, s)) : 0 ≤ value s := by
  rw [(closest_spec h).2]
  exact textSimilarity_nonneg ..

theorem creditLeftovers_nonneg {credit : α} (h : 0 ≤ value credit) (leftovers remaining : List String) :
    0 ≤ value (creditLeftovers credit leftovers remaining) := by
  induction leftovers generalizing credit remaining with
  | nil => exact h
  | cons cls rest ih =>
    rw [creditLeftovers]
    split
    · exact h
    · next hs =>
      have hs := closest_nonneg hs
      apply ih
      rw [value_add]
      split
      · rw [value_div, value_add, value_one, value_ofNat]
        positivity
      · exact add_nonneg h hs

theorem classListSimilarity_nonneg (a b : List String) : 0 ≤ value (classListSimilarity a b : α) := by
  unfold classListSimilarity
  dsimp only
  split
  · simp
  · rw [value_div, value_ofNat]
    refine div_nonneg (creditLeftovers_nonneg ?_ ..) (Nat.cast_nonneg _)
    rw [value_ofNat]
    exact Nat.cast_nonneg _

theorem valueSimilarity_nonneg (structural : Bool) (name : String) (a b : Attribute) :
    0 ≤ value (valueSimilarity structural name a b : α) := by
  unfold valueSimilarity
  split
  · split
    · exact classListSimilarity_nonneg ..
    · split
      · simp
      · exact textSimilarity_nonneg ..
  · simp

theorem attributeSum_nonneg (structural : Bool) (other : Tag) (attrs : List Attribute) {sum : α}
    (weight : Nat) (h : 0 ≤ value sum) :
    0 ≤ value (attributeSum structural other sum weight attrs).1 := by
  induction attrs generalizing sum weight with
  | nil => exact h
  | cons a attrs ih =>
    rw [attributeSum]
    split
    · exact ih _ h
    · apply ih
      rw [value_add]
      refine add_nonneg h ?_
      split
      · rw [value_ofNat]
        exact Nat.cast_nonneg _
      · rw [value_add, value_one]
        exact add_nonneg zero_le_one (valueSimilarity_nonneg ..)

theorem attributeScore_nonneg (structural : Bool) (s t : Tag) :
    0 ≤ value (attributeScore structural s t : α) := by
  unfold attributeScore
  dsimp only
  split
  · simp
  · rw [value_div, value_ofNat]
    exact div_nonneg (attributeSum_nonneg _ _ _ _ (by simp)) (Nat.cast_nonneg _)

theorem value_mean_pos (v w : String) : 0 < value ((one + textSimilarity v w) / ofNat 2 : α) := by
  have hsimilar : 0 ≤ value (textSimilarity v w : α) := textSimilarity_nonneg v w
  rw [value_div, value_add, value_one, value_ofNat]
  exact div_pos (add_pos_of_pos_of_nonneg one_pos hsimilar) (by norm_num)

theorem leafScore_nonneg (structural : Bool) (a b : Node) : 0 ≤ value (leafScore structural a b : α) := by
  unfold leafScore
  split
  · split
    · simp
    · exact (value_mean_pos ..).le
  · split
    · exact (value_mean_pos ..).le
    · simp
  all_goals
    repeat' split
    all_goals simp [half, value_div, value_ofNat]

mutual
theorem score_nonneg (structural : Bool) : (a b : Node) → 0 ≤ value (score structural a b : α)
  | .block _ _ t, b => by
    rw [score]
    exact score_nonneg structural t b
  | .element s cs, b => by
    rw [score]
    split
    · split
      · next t ds _ _ =>
        have hattrs : 0 ≤ value (attributeScore structural s t : α) := attributeScore_nonneg ..
        have hchildren : 0 ≤ value (childrenSum structural (zero : α) cs ds) :=
          childrenSum_nonneg structural cs ds (by simp)
        dsimp only
        rw [value_div, value_add, value_add, value_one, value_ofNat]
        apply div_nonneg (add_nonneg (add_nonneg zero_le_one hattrs) _) (Nat.cast_nonneg _)
        split
        · simp
        · rw [value_div, value_ofNat]
          exact div_nonneg hchildren (Nat.cast_nonneg _)
      · simp
    · exact leafScore_nonneg ..
  | .literal k v, b => by rw [score]; exact leafScore_nonneg ..
  | .slot k r, b => by rw [score]; exact leafScore_nonneg ..
  | .content, b => by rw [score]; exact leafScore_nonneg ..
  | .foreign, b => by rw [score]; exact leafScore_nonneg ..

theorem childrenSum_nonneg (structural : Bool) : (as bs : List Node) → {sum : α} →
    0 ≤ value sum → 0 ≤ value (childrenSum structural sum as bs)
  | [], _, _, h => by rwa [childrenSum.eq_def]
  | _ :: _, [], _, h => by rwa [childrenSum.eq_def]
  | a :: as, b :: bs, sum, h => by
    rw [childrenSum]
    apply childrenSum_nonneg structural as bs
    rw [value_add]
    exact add_nonneg h (score_nonneg structural a b)
end

end Score

end Stencil
