import Stencil.Proofs.FullScore
import Stencil.Proofs.Positive
import Stencil.Proofs.UnitScore

namespace Stencil

namespace Grade

class Ordered (α : Type) [Grade α] [Counting α] [Positive α] : Prop where
  nonneg_ofNat {n : Nat} : Counting.Fits α n → Positive.Nonneg (ofNat n : α)
  not_lt_zero {x : α} : zero < x → ¬ x < zero
  isOne_zero : Grade.isOne (zero : α) = false

instance {α : Type} [Grade α] [Exact α] [Attainable α] : Ordered α where
  nonneg_ofNat _ := by
    change 0 ≤ Exact.value (ofNat _ : α)
    rw [Exact.value_ofNat]
    exact Nat.cast_nonneg _
  not_lt_zero h := by
    rw [Exact.lt_iff] at h ⊢
    exact h.not_gt
  isOne_zero := by
    rw [← Bool.not_eq_true, Exact.isOne_iff, Score.value_zero]
    exact zero_ne_one

instance : Ordered Float where
  nonneg_ofNat {n} h := by
    change Binary.Unsigned (Float.ofNat n).toModel.unpack
    rw [Binary.unpack_ofNat h]
    by_cases hzero : n = 0
    · rw [hzero]
      exact .zero
    · rw [Binary.whole_of_pos (Nat.pos_of_ne_zero hzero)]
      exact .finite (Binary.mantissa_pos (Nat.pos_of_ne_zero hzero))
  not_lt_zero {x} h hlt := by
    have hx := Binary.unsigned_of_lt h
    change decide (x.toModel.unpack.lt (Float.ofNat 0).toModel.unpack = true) = true at hlt
    rw [Binary.unpack_zero, decide_eq_true_eq] at hlt
    generalize x.toModel.unpack = u at hx hlt
    cases hx <;> cases hlt
  isOne_zero := by decide +kernel

end Grade

namespace Score

open Grade Counting Positive

variable {α : Type} [Grade α] [Counting α] [Positive α] [Ordered α]

omit [Positive α] [Ordered α] in
theorem fits_two : Fits α 2 :=
  fits_mono (by omega) fits_three

omit [Ordered α] in
theorem nonneg_creditLeftovers {credit : α} (h : Nonneg credit) (leftovers remaining : List String) :
    Nonneg (creditLeftovers credit leftovers remaining) := by
  induction leftovers generalizing credit remaining with
  | nil => exact h
  | cons cls rest ih =>
    rw [creditLeftovers]
    split
    · exact h
    · next i matched s hclosest =>
      have hs : Nonneg s := by
        rw [(closest_spec hclosest).2]
        exact nonneg_textSimilarity ..
      apply ih
      split
      · exact nonneg_add h (nonneg_div (by omega) fits_two (nonneg_add nonneg_one hs))
      · exact nonneg_add h hs

theorem nonneg_classListSimilarity {a b : List String} (hfits : Fits α (max a.length b.length)) :
    Nonneg (classListSimilarity a b : α) := by
  have hcredit : Fits α (a.length - (unshared a b).1.length) := fits_mono (by omega) hfits
  unfold classListSimilarity
  dsimp only
  split
  · exact nonneg_one
  · next hne =>
    exact nonneg_div (Nat.pos_of_ne_zero hne) hfits (nonneg_creditLeftovers (Ordered.nonneg_ofNat hcredit) ..)

theorem nonneg_gain {structural : Bool} {a b : Attribute} (hfits : Fits α (max a.size b.size)) :
    Nonneg (gain structural a b : α) := by
  have hvalue : Nonneg (valueSimilarity structural a.name a b : α) := by
    unfold valueSimilarity
    split
    · next v _ w =>
      split
      · have hv := length_classList_le v
        have hw := length_classList_le w
        refine nonneg_classListSimilarity (fits_mono ?_ hfits)
        simp only [Attribute.size]
        omega
      · split
        · exact nonneg_one
        · exact nonneg_textSimilarity ..
    · exact nonneg_one
  unfold gain
  split
  · exact Ordered.nonneg_ofNat fits_two
  · exact nonneg_add nonneg_one hvalue

omit [Ordered α] in
theorem nonneg_attributeSum {structural : Bool} {other : Tag} {attrs : List Attribute} {sum : α} {weight : Nat}
    (h : Nonneg sum) (hgain : ∀ a ∈ attrs, ∀ b ∈ other.attrs, Nonneg (gain structural a b : α)) :
    Nonneg (attributeSum structural other sum weight attrs).1 := by
  induction attrs generalizing sum weight with
  | nil => exact h
  | cons a attrs ih =>
    obtain ⟨hfirst, hrest⟩ := List.forall_mem_cons.mp hgain
    rw [attributeSum_cons]
    split
    · exact ih h hrest
    · next b hb => exact ih (nonneg_add h (hfirst b (List.mem_of_find?_eq_some hb))) hrest

omit [Counting α] [Positive α] [Ordered α] in
theorem attributeSum_weight_le (structural : Bool) (other : Tag) (attrs : List Attribute) (sum : α) (weight : Nat) :
    (attributeSum structural other sum weight attrs).2 ≤ weight + (attrs.map Attribute.size).sum := by
  induction attrs generalizing sum weight with
  | nil => exact Nat.le_refl _
  | cons a attrs ih =>
    have hsize := a.two_le_size
    rw [attributeSum_cons, List.map_cons, List.sum_cons]
    split
    · exact (ih ..).trans (by omega)
    · exact (ih ..).trans (by omega)

theorem size_le_of_mem {a : Attribute} {attrs : List Attribute} (h : a ∈ attrs) :
    a.size ≤ (attrs.map Attribute.size).sum :=
  List.single_le_sum (fun _ _ => Nat.zero_le _) _ (List.mem_map_of_mem h)

theorem nonneg_attributeScore {structural : Bool} {s t : Tag}
    (hfits : Fits α ((s.attrs.map Attribute.size).sum + (t.attrs.map Attribute.size).sum)) :
    Nonneg (attributeScore structural s t : α) := by
  have hgain : ∀ a ∈ s.attrs, ∀ b ∈ t.attrs, Nonneg (gain structural a b : α) := by
    intro a ha b hb
    have hsa := size_le_of_mem ha
    have htb := size_le_of_mem hb
    exact nonneg_gain (fits_mono (by omega) hfits)
  have hweight := attributeSum_weight_le structural t s.attrs (zero : α) 0
  have hmissing : (t.attrs.filter fun b => (s.attr? b.name).isNone).length ≤ (t.attrs.map Attribute.size).sum := by
    have hall := Attribute.two_mul_length_le t.attrs
    have hfilter := List.length_filter_le (fun b => (s.attr? b.name).isNone) t.attrs
    omega
  unfold attributeScore
  dsimp only
  split
  · exact nonneg_one
  · next hne =>
    exact nonneg_div (Nat.pos_of_ne_zero hne) (fits_mono (by omega) hfits) (nonneg_attributeSum nonneg_zero hgain)

-- the two theorems need the order together, so that the linter sees no use of it in the second one alone
set_option linter.unusedSectionVars false in
mutual
theorem lt_score_of_kind : (a b : Node) → b.Literal → a.kind = b.kind → Fits α (a.size + b.size) →
    zero < (score false a b : α)
  | .block _ _ t, b, hb, hkind, hfits => by
    rw [score]
    apply lt_score_of_kind t b hb hkind
    exact fits_mono (by rw [Node.size]; omega) hfits
  | .literal k v, b, hb, hkind, _ => by
    cases b with
    | literal l w =>
      cases hkind
      cases k <;> simpa [score, Node.core, leafScore] using lt_mean (nonneg_textSimilarity v w)
    | element => cases hkind
    | _ => exact hb.elim
  | .element s cs, b, hb, hkind, hfits => by
    cases b with
    | literal => cases hkind
    | element t ds =>
      simp only [Node.size] at hfits
      have hcs := Node.length_le_sizeOfList cs
      have hds := Node.length_le_sizeOfList ds
      exact lt_score_tags (Node.Kind.element.inj hkind) (nonneg_attributeScore (fits_mono (by omega) hfits))
        (fits_mono (by omega) hfits)
        (nonneg_childrenSum_literals cs ds hb.2.2 (fits_mono (by omega) hfits) nonneg_zero)
    | _ => exact hb.elim
  | .slot k r, b, hb, hkind, _ => by
    have hone : zero < (one : α) := zero_lt counts_one
    cases b with
    | literal l w => cases k <;> cases hkind <;> exact hone
    | element t ds =>
      cases k with
      | html =>
        have hsvg : "svg" = t.name := Node.Kind.element.inj hkind
        simpa [score, Node.core, leafScore, ← hsvg] using hone
      | _ => cases hkind
    | _ => exact hb.elim
  | .content, b, hb, hkind, _ => by cases b <;> first | exact hb.elim | cases hkind
  | .foreign, b, hb, hkind, _ => by cases b <;> first | exact hb.elim | cases hkind

theorem nonneg_childrenSum_literals : (as bs : List Node) → Node.LiteralList bs →
    Fits α (Node.sizeOfList as + Node.sizeOfList bs) → {sum : α} → Nonneg sum →
    Nonneg (childrenSum false sum as bs)
  | [], _, _, _, _, h => by rwa [childrenSum.eq_def]
  | _ :: _, [], _, _, _, h => by rwa [childrenSum.eq_def]
  | a :: as, b :: bs, hbs, hfits, sum, h => by
    simp only [Node.sizeOfList] at hfits
    have hscore : Nonneg (score false a b : α) := by
      by_cases hkind : a.kind = b.kind
      · exact nonneg_of_lt (lt_score_of_kind a b hbs.1 hkind (fits_mono (by omega) hfits))
      · rw [score_of_kind_ne hbs.1 a hkind]
        exact nonneg_zero
    rw [childrenSum]
    exact nonneg_childrenSum_literals as bs hbs.2 (fits_mono (by omega) hfits) (nonneg_add h hscore)
end

theorem lt_score_iff {a b : Node} (hb : b.Literal) (hfits : Fits α (a.size + b.size)) :
    zero < (score false a b : α) ↔ a.kind = b.kind := by
  constructor
  · intro h
    by_contra hkind
    rw [score_of_kind_ne hb a hkind] at h
    exact lt_irrefl _ h
  · exact fun hkind => lt_score_of_kind a b hb hkind hfits

omit [Ordered α] in
theorem kind_mem_of_hasBetterPartner {first : Bool} {node : Node} {others : List Node} (hnode : node.Literal)
    (hothers : ∀ n ∈ others, n.Literal) (h : hasBetterPartner first node (zero : α) others = true) :
    node.kind ∈ others.map Node.kind := by
  rw [hasBetterPartner, List.any_eq_true] at h
  obtain ⟨n, hn, hlt⟩ := h
  by_contra hkind
  have hne : n.kind ≠ node.kind := fun he => hkind (he ▸ List.mem_map_of_mem hn)
  have hzero : (if first then score false node n else score false n node : α) = zero := by
    cases first with
    | true => exact score_of_kind_ne (hothers n hn) node hne.symm
    | false => exact score_of_kind_ne hnode n hne
  rw [hzero, decide_eq_true_eq] at hlt
  exact Positive.lt_irrefl _ hlt

theorem hasBetterPartner_iff {first : Bool} {node : Node} {others : List Node} (hnode : node.Literal)
    (hothers : ∀ n ∈ others, n.Literal) (hfits : ∀ n ∈ others, Fits α (node.size + n.size)) :
    hasBetterPartner first node (zero : α) others = true ↔ node.kind ∈ others.map Node.kind := by
  rw [hasBetterPartner, List.any_eq_true, List.mem_map]
  refine exists_congr fun n => and_congr_right fun hn => ?_
  cases first with
  | true =>
    rw [if_pos rfl, decide_eq_true_eq, lt_score_iff (hothers n hn) (hfits n hn)]
    exact eq_comm
  | false =>
    rw [if_neg Bool.false_ne_true, decide_eq_true_eq,
      lt_score_iff hnode (fits_mono (Nat.add_comm ..).le (hfits n hn))]

end Score

end Stencil
