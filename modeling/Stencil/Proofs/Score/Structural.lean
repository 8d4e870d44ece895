import Stencil.Proofs.UnitScore

namespace Stencil.Score

open Grade Exact

variable {α : Type} [Grade α] [Exact α]

theorem leafScore_le_structural (a b : Node) : value (leafScore false a b : α) ≤ value (leafScore true a b : α) := by
  unfold leafScore
  split
  · next v w =>
    simp only [Bool.false_and, Bool.false_eq_true, if_false, Bool.true_and]
    split
    · rw [value_one]
      exact mean_le_one (textSimilarity_le_one v w)
    · exact le_rfl
  all_goals exact le_rfl

theorem valueSimilarity_le_structural (name : String) (a b : Attribute) :
    value (valueSimilarity false name a b : α) ≤ value (valueSimilarity true name a b : α) := by
  unfold valueSimilarity
  split
  · next v _ w =>
    simp only [Bool.false_eq_true, if_false, if_true]
    split
    · exact le_rfl
    · rw [value_one]
      exact textSimilarity_le_one v w
  · exact le_rfl

theorem gain_le_structural (a b : Attribute) : value (gain false a b : α) ≤ value (gain true a b : α) := by
  unfold gain
  split
  · exact le_rfl
  · have hvalue : value (valueSimilarity false a.name a b : α) ≤ value (valueSimilarity true a.name a b : α) :=
      valueSimilarity_le_structural a.name a b
    rw [value_add, value_add]
    linarith

theorem attributeSum_le_structural (other : Tag) (attrs : List Attribute) (weight : Nat) {sum sum' : α}
    (h : value sum ≤ value sum') :
    value (attributeSum false other sum weight attrs).1 ≤ value (attributeSum true other sum' weight attrs).1 ∧
      (attributeSum false other sum weight attrs).2 = (attributeSum true other sum' weight attrs).2 := by
  induction attrs generalizing sum sum' weight with
  | nil => exact ⟨h, rfl⟩
  | cons a attrs ih =>
    rw [attributeSum_cons, attributeSum_cons]
    cases other.attr? a.name with
    | none => exact ih _ h
    | some b =>
      have hgain : value (gain false a b : α) ≤ value (gain true a b : α) := gain_le_structural a b
      apply ih
      rw [value_add, value_add]
      linarith

theorem attributeScore_le_structural (s t : Tag) :
    value (attributeScore false s t : α) ≤ value (attributeScore true s t : α) := by
  obtain ⟨hsum, hweight⟩ := attributeSum_le_structural t s.attrs 0 (le_refl (value (zero : α)))
  unfold attributeScore
  dsimp only
  rw [hweight]
  split
  · exact le_rfl
  · rw [value_div, value_div, value_ofNat]
    exact div_le_div_of_nonneg_right hsum (Nat.cast_nonneg _)

mutual
theorem score_le_structural : (a b : Node) → value (score false a b : α) ≤ value (score true a b : α)
  | .block _ _ t, b => by
    rw [score, score]
    exact score_le_structural t b
  | .element s cs, b => by
    rw [score, score]
    split
    · next t ds _ =>
      split
      · have hattrs : value (attributeScore false s t : α) ≤ value (attributeScore true s t : α) :=
          attributeScore_le_structural s t
        have hchildren : value (childrenScore false cs ds : α) ≤ value (childrenScore true cs ds : α) :=
          childrenScore_le_structural cs ds
        change value ((one + attributeScore false s t + childrenScore false cs ds) / ofNat 3) ≤
          value ((one + attributeScore true s t + childrenScore true cs ds) / ofNat 3)
        rw [value_div, value_div, value_add, value_add, value_add, value_add, value_ofNat]
        apply div_le_div_of_nonneg_right _ (Nat.cast_nonneg _)
        linarith
      · exact le_rfl
    · exact leafScore_le_structural _ _
  | .literal k v, b => by rw [score, score]; exact leafScore_le_structural _ _
  | .slot k r, b => by rw [score, score]; exact leafScore_le_structural _ _
  | .content, b => by rw [score, score]; exact leafScore_le_structural _ _
  | .foreign, b => by rw [score, score]; exact leafScore_le_structural _ _

theorem childrenSum_le_structural : (as bs : List Node) → {sum sum' : α} → value sum ≤ value sum' →
    value (childrenSum false sum as bs) ≤ value (childrenSum true sum' as bs)
  | [], _, _, _, h => by rwa [childrenSum.eq_def, childrenSum.eq_def]
  | _ :: _, [], _, _, h => by rwa [childrenSum.eq_def, childrenSum.eq_def]
  | a :: as, b :: bs, sum, sum', h => by
    have hfirst : value (score false a b : α) ≤ value (score true a b : α) := score_le_structural a b
    rw [childrenSum, childrenSum]
    apply childrenSum_le_structural as bs
    rw [value_add, value_add]
    linarith

theorem childrenScore_le_structural (as bs : List Node) :
    value (childrenScore false as bs : α) ≤ value (childrenScore true as bs : α) := by
  unfold childrenScore
  dsimp only
  split
  · exact le_rfl
  · rw [value_div, value_div, value_ofNat]
    exact div_le_div_of_nonneg_right (childrenSum_le_structural as bs le_rfl) (Nat.cast_nonneg _)
end

theorem le_repeatsWhere (like : Node → Bool) {position last : Nat} (ns : List Node) (h : last ≤ position) :
    last ≤ repeatsWhere like position last ns := by
  fun_induction repeatsWhere like position last ns with
  | case2 position last rest v _ ih =>
    apply ih
    omega
  | case4 position last rest tag cs hn ih =>
    have hrest := ih (Nat.le_refl _)
    rw [if_pos hn]
    omega
  | case5 position last rest tag cs hn =>
    rw [if_neg hn]
  | _ => exact Nat.le_refl _

theorem repeatsWhere_mono {like like' : Node → Bool} (hlike : ∀ n, like n = true → like' n = true)
    {position last last' : Nat} (ns : List Node) (h : last ≤ last') (hlast : last' ≤ position) :
    repeatsWhere like position last ns ≤ repeatsWhere like' position last' ns := by
  fun_induction repeatsWhere like position last ns generalizing last' with
  | case2 position last rest v hblank ih =>
    rw [repeatsWhere, if_pos hblank]
    apply ih h
    omega
  | case4 position last rest tag cs hn ih =>
    rw [if_pos hn, repeatsWhere, if_pos (hlike _ hn)]
    exact ih (Nat.le_refl _) (Nat.le_refl _)
  -- where the first walk stops, the second one has come as far
  | case5 position last rest tag cs hn =>
    rw [if_neg hn]
    exact h.trans (le_repeatsWhere like' _ hlast)
  | _ => exact h.trans (le_repeatsWhere like' _ hlast)

/-- Without rounding the structural mode gives every two nodes at least the score of the plain mode. Two nodes
that are like enough in the plain mode to be items of one list are so in the structural mode, and at least as
many nodes repeat a node as a walk with plain scores counts. -/
theorem structural_score_ge (a b : Node) (rest : List Node) :
    (score false a b : Rat) ≤ score true a b ∧
      (loopThreshold ≤ (score false a b : Rat) → reachesThreshold (α := Rat) a b = true) ∧
      repeatsWhere (fun n => decide (loopThreshold ≤ (score false a n : Rat))) 0 0 rest ≤
        repeats (α := Rat) a rest := by
  have hscore (n : Node) : (score false a n : Rat) ≤ score true a n := score_le_structural (α := Rat) a n
  have hlike (n : Node) (h : loopThreshold ≤ (score false a n : Rat)) : reachesThreshold (α := Rat) a n = true :=
    decide_eq_true (le_trans h (hscore n))
  refine ⟨hscore b, hlike b, ?_⟩
  rw [repeats, repeatsFrom_eq]
  apply repeatsWhere_mono _ _ (Nat.le_refl 0) (Nat.le_refl 0)
  intro n hn
  exact hlike n (of_decide_eq_true hn)

theorem structural_score_ge_links :
    ∃ a b : Node, repeatsWhere (fun n => decide (loopThreshold ≤ (score false a n : Rat))) 0 0 [b] = 0 ∧
      repeats (α := Rat) a [b] = 1 ∧ (score false a b : Rat) ≤ score true a b := by
  refine ⟨.element ⟨"a", [.fixed "href" "/home"]⟩ [.text "Home"],
    .element ⟨"a", [.fixed "href" "/about"]⟩ [.text "About"], ?_, ?_, (structural_score_ge _ _ []).1⟩
  · decide +kernel
  · decide +kernel

end Stencil.Score
