import Mathlib.Algebra.BigOperators.Group.List.Basic
import Mathlib.Tactic.Ring
import Stencil.Proofs.FullScore
import Stencil.Proofs.UnitScore

/-!
Swapping two nodes changes their score by nothing but the class lists of the elements that are compared. A class
without a partner picks the nearest of the classes that are left on the other side, one class after the other, so
two class lists can be more alike in one order than in the other. All else is symmetric.
-/

namespace Stencil

namespace Tag

def matching (t : Tag) (attrs : List Attribute) : List (Attribute × Attribute) :=
  attrs.filterMap fun a => (t.attr? a.name).map fun b => (a, b)

theorem mem_matching {t : Tag} {attrs : List Attribute} {a b : Attribute} :
    (a, b) ∈ t.matching attrs ↔ a ∈ attrs ∧ t.attr? a.name = some b := by
  simp only [matching, List.mem_filterMap, Option.map_eq_some_iff, Prod.mk.injEq]
  constructor
  · rintro ⟨a', ha', b', hb', rfl, rfl⟩
    exact ⟨ha', hb'⟩
  · rintro ⟨ha, hb⟩
    exact ⟨a, ha, b, hb, rfl, rfl⟩

theorem nodup_matching {t : Tag} {attrs : List Attribute} (h : (attrs.map Attribute.name).Nodup) :
    (t.matching attrs).Nodup := by
  apply List.Nodup.of_map Prod.fst
  have hsub : ((t.matching attrs).map Prod.fst).Sublist attrs := by
    unfold matching
    induction attrs with
    | nil => exact List.Sublist.refl []
    | cons a attrs ih =>
      rw [List.map_cons, List.nodup_cons] at h
      cases hb : t.attr? a.name with
      | none =>
        rw [List.filterMap_cons_none (by rw [hb]; rfl)]
        exact (ih h.2).cons a
      | some b =>
        rw [List.filterMap_cons_some (by rw [hb]; rfl)]
        exact (ih h.2).cons_cons a
  exact (List.Nodup.of_map _ h).sublist hsub

theorem matching_swap {s t : Tag} (hs : (s.attrs.map Attribute.name).Nodup)
    (ht : (t.attrs.map Attribute.name).Nodup) : (s.matching t.attrs).Perm ((t.matching s.attrs).map Prod.swap) := by
  have hswap : ((t.matching s.attrs).map Prod.swap).Nodup :=
    (List.nodup_map_iff Prod.swap_injective).mpr (nodup_matching hs)
  rw [List.perm_ext_iff_of_nodup (nodup_matching ht) hswap]
  rintro ⟨b, a⟩
  have hmap : (b, a) ∈ (t.matching s.attrs).map Prod.swap ↔ (a, b) ∈ t.matching s.attrs :=
    List.mem_map_of_injective Prod.swap_injective (a := (a, b))
  rw [hmap, mem_matching, mem_matching]
  constructor
  · rintro ⟨hb, ha⟩
    obtain ⟨hmem, hname⟩ := mem_of_attr? ha
    exact ⟨hmem, hname ▸ attr?_of_mem ht hb⟩
  · rintro ⟨ha, hb⟩
    obtain ⟨hmem, hname⟩ := mem_of_attr? hb
    exact ⟨hmem, hname ▸ attr?_of_mem hs ha⟩

theorem length_matching (t : Tag) (attrs : List Attribute) :
    (attrs.filter fun a => (t.attr? a.name).isNone).length + (t.matching attrs).length = attrs.length := by
  unfold matching
  induction attrs with
  | nil => rfl
  | cons a attrs ih =>
    cases hb : t.attr? a.name with
    | none =>
      rw [List.filterMap_cons_none (by rw [hb]; rfl), List.filter_cons_of_pos (by rw [hb]; rfl), List.length_cons,
        List.length_cons]
      omega
    | some b =>
      rw [List.filterMap_cons_some (by rw [hb]; rfl), List.filter_cons_of_neg (by rw [hb]; simp), List.length_cons,
        List.length_cons]
      omega

theorem sum_matching {t : Tag} {attrs : List Attribute} (hattrs : (attrs.map Attribute.name).Nodup) (name : String)
    {f : Attribute × Attribute → Rat} (hf : ∀ a b, a.name ≠ name → f (a, b) = 0) :
    ((t.matching attrs).map f).sum =
      match attrs.find? fun a => a.name == name, t.attr? name with
      | some a, some b => f (a, b)
      | _, _ => 0 := by
  unfold matching
  induction attrs with
  | nil => rfl
  | cons a attrs ih =>
    rw [List.map_cons, List.nodup_cons] at hattrs
    by_cases ha : a.name = name
    · have hrest : attrs.find? (fun a => a.name == name) = none := by
        rw [List.find?_eq_none]
        intro c hc hname
        apply hattrs.1
        rw [ha, ← beq_iff_eq.mp hname]
        exact List.mem_map_of_mem hc
      have hsum := ih hattrs.2
      rw [hrest] at hsum
      rw [List.find?_cons_of_pos (by rw [ha, beq_self_eq_true]), ← ha]
      cases hb : t.attr? a.name with
      | none => rw [List.filterMap_cons_none (by rw [hb]; rfl), hsum]
      | some b => rw [List.filterMap_cons_some (by rw [hb]; rfl), List.map_cons, List.sum_cons, hsum, add_zero]
    · rw [List.find?_cons_of_neg (by simpa using ha), ← ih hattrs.2]
      cases hb : t.attr? a.name with
      | none => rw [List.filterMap_cons_none (by rw [hb]; rfl)]
      | some b =>
        rw [List.filterMap_cons_some (by rw [hb]; rfl), List.map_cons, List.sum_cons, hf a b ha, zero_add]

end Tag

namespace Score

open Grade Exact

variable {α : Type} [Grade α]

theorem textSimilarity_comm (a b : String) : (textSimilarity a b : α) = textSimilarity b a := by
  unfold textSimilarity
  rw [Nat.max_comm, Text.editDistance_comm]

theorem leafScore_comm (structural : Bool) (a b : Node) :
    (leafScore structural a b : α) = leafScore structural b a := by
  cases a <;> cases b <;> try rfl
  case literal.literal k v l w =>
    cases k <;> cases l <;> simp [leafScore, textSimilarity_comm v w, and_comm, and_assoc, and_left_comm]
  case literal.slot k v l r => cases k <;> cases l <;> rfl
  case slot.literal k r l v => cases k <;> cases l <;> rfl
  case slot.slot k r l q =>
    cases k <;> cases l <;> simp [leafScore, eq_comm (a := r)]
  case slot.element k r t ds => cases k <;> rfl
  case element.slot t ds k r => cases k <;> rfl
  all_goals
    rename LiteralKind => k
    cases k <;> rfl

section Classes

theorem unshared_fst {a : List String} (ha : a.Nodup) (b : List String) :
    (unshared a b).1 = a.filter fun cls => !b.contains cls := by
  induction a generalizing b with
  | nil => rfl
  | cons cls rest ih =>
    obtain ⟨hnew, hrest⟩ := List.nodup_cons.mp ha
    rw [unshared]
    split
    · next hin =>
      rw [List.filter_cons_of_neg (by rw [hin]; decide), ih hrest]
      apply List.filter_congr
      intro x hx
      have hne : x ≠ cls := fun h => hnew (h ▸ hx)
      rw [Bool.not_inj_iff, Bool.eq_iff_iff, List.contains_iff_mem, List.contains_iff_mem, List.mem_erase_of_ne hne]
    · next hin =>
      rw [List.filter_cons_of_pos (by simpa using hin), ← ih hrest b]

theorem unshared_snd (a : List String) {b : List String} (hb : b.Nodup) :
    (unshared a b).2 = b.filter fun cls => !a.contains cls := by
  induction a generalizing b with
  | nil => simp [unshared]
  | cons cls rest ih =>
    rw [unshared]
    split
    · next hin =>
      rw [ih (hb.erase cls), hb.erase_eq_filter, List.filter_filter]
      apply List.filter_congr
      intro x hx
      rw [List.contains_cons, Bool.not_or, Bool.and_comm, bne]
    · next hin =>
      rw [ih hb]
      apply List.filter_congr
      intro x hx
      have hne : (x == cls) = false := by
        rw [beq_eq_false_iff_ne]
        rintro rfl
        exact hin (List.contains_iff_mem.mpr hx)
      rw [List.contains_cons, hne, Bool.false_or]

theorem unshared_swap {a b : List String} (ha : a.Nodup) (hb : b.Nodup) : unshared b a = (unshared a b).swap := by
  apply Prod.ext
  · rw [unshared_fst hb, Prod.fst_swap, unshared_snd a hb]
  · rw [unshared_snd b ha, Prod.snd_swap, unshared_fst ha]

theorem length_shared {a b : List String} (ha : a.Nodup) (hb : b.Nodup) :
    a.length - (unshared a b).1.length = b.length - (unshared a b).2.length := by
  have hperm : (a.filter fun cls => b.contains cls).Perm (b.filter fun cls => a.contains cls) := by
    rw [List.perm_ext_iff_of_nodup (ha.filter _) (hb.filter _)]
    intro cls
    rw [List.mem_filter, List.mem_filter, List.contains_iff_mem, List.contains_iff_mem, and_comm]
  have hlengths := hperm.length_eq
  have hleft := List.length_eq_length_filter_add (l := a) fun cls => b.contains cls
  have hright := List.length_eq_length_filter_add (l := b) fun cls => a.contains cls
  rw [unshared_fst ha, unshared_snd a hb]
  omega

theorem creditLeftovers_single (credit : α) (cls c : String) :
    creditLeftovers credit [cls] [c] = creditLeftovers credit [c] [cls] := by
  have hfamily : (!(classFamily cls).isEmpty && classFamily cls == classFamily c) =
      (!(classFamily c).isEmpty && classFamily c == classFamily cls) := by
    rw [Bool.eq_iff_iff, Bool.and_eq_true, Bool.and_eq_true, beq_iff_eq, beq_iff_eq]
    constructor
    · rintro ⟨hsome, heq⟩
      exact ⟨heq ▸ hsome, heq.symm⟩
    · rintro ⟨hsome, heq⟩
      exact ⟨heq ▸ hsome, heq.symm⟩
  simp only [creditLeftovers, closest, List.zipIdx_cons, List.zipIdx_nil, List.foldl_cons, List.foldl_nil, hfamily,
    textSimilarity_comm cls c]

theorem classListSimilarity_comm {a b : List String} (ha : a.Nodup) (hb : b.Nodup)
    (h : (unshared a b).1 = [] ∨ (unshared a b).2 = [] ∨
      (unshared a b).1.length = 1 ∧ (unshared a b).2.length = 1) :
    (classListSimilarity a b : α) = classListSimilarity b a := by
  have hcredit (credit : α) : creditLeftovers credit (unshared a b).1 (unshared a b).2 =
      creditLeftovers credit (unshared a b).2 (unshared a b).1 := by
    have hempty (leftovers : List String) : creditLeftovers credit leftovers [] = credit := by
      cases leftovers <;> rfl
    rcases h with h | h | ⟨hleft, hright⟩
    · rw [h, hempty]
      rfl
    · rw [h, hempty]
      rfl
    · obtain ⟨cls, hcls⟩ := List.length_eq_one_iff.mp hleft
      obtain ⟨c, hc⟩ := List.length_eq_one_iff.mp hright
      rw [hcls, hc]
      exact creditLeftovers_single credit cls c
  unfold classListSimilarity
  rw [unshared_swap ha hb, Nat.max_comm]
  dsimp only [Prod.fst_swap, Prod.snd_swap]
  rw [← length_shared ha hb, hcredit]

end Classes

variable [Exact α]

variable (α) in
def classTilt (a b : List String) : Rat :=
  value (classListSimilarity a b : α) - value (classListSimilarity b a : α)

variable (α) in
def pairTilt : Attribute → Attribute → Rat
  | .fixed n v, .fixed _ w => if n = "class" then classTilt α (classList (some v)) (classList (some w)) else 0
  | _, _ => 0

variable (α) in
def attributeTilt (s t : Tag) : Rat :=
  match s.fixedValue? "class", t.fixedValue? "class" with
  | some v, some w =>
    classTilt α (classList (some v)) (classList (some w)) / (s.attrs.length + t.attrs.length : Nat)
  | _, _ => 0

theorem gain_sub_swap {structural : Bool} {a b : Attribute} (hname : a.name = b.name) :
    value (gain structural a b : α) - value (gain structural b a : α) = pairTilt α a b := by
  unfold gain
  rw [← hname]
  split
  · next hboolean =>
    rw [sub_self]
    cases a <;> cases b <;> try rfl
    next n v m w =>
      have hne : n ≠ "class" := by
        rintro rfl
        rw [Attribute.name] at hboolean
        exact absurd hboolean (by decide)
      exact (if_neg hne).symm
  · rw [value_add, value_add, add_sub_add_left_eq_sub]
    cases a <;> cases b <;> try exact sub_self _
    next n v _ m w =>
      obtain rfl : n = m := hname
      by_cases hclass : n = "class"
      · rw [pairTilt, if_pos hclass]
        simp only [valueSimilarity, Attribute.name, hclass, beq_self_eq_true, if_true]
        rfl
      · have hbeq : (n == "class") = false := beq_eq_false_iff_ne.mpr hclass
        rw [pairTilt, if_neg hclass]
        simp only [valueSimilarity, Attribute.name, hbeq, Bool.false_eq_true, if_false, textSimilarity_comm w v,
          sub_self]

theorem sum_pairTilt {s t : Tag} (hs : (s.attrs.map Attribute.name).Nodup) :
    ((t.matching s.attrs).map fun p => pairTilt α p.1 p.2).sum =
      attributeTilt α s t * (s.attrs.length + t.attrs.length : Nat) := by
  have hother (a b : Attribute) (ha : a.name ≠ "class") : pairTilt α a b = 0 := by
    cases a <;> cases b <;> first | rfl | exact if_neg ha
  rw [Tag.sum_matching hs "class" hother]
  change (match s.attr? "class", t.attr? "class" with
    | some a, some b => pairTilt α a b
    | _, _ => 0) = _
  rw [attributeTilt, Tag.fixedValue?, Tag.fixedValue?]
  cases ha : s.attr? "class" with
  | none => exact (zero_mul _).symm
  | some a =>
    obtain ⟨hmem, hname⟩ := Tag.mem_of_attr? ha
    cases hb : t.attr? "class" with
    | none => cases a <;> exact (zero_mul _).symm
    | some b =>
      cases a <;> cases b <;> try exact (zero_mul _).symm
      have hne : ((s.attrs.length + t.attrs.length : Nat) : Rat) ≠ 0 := by
        have hpos := List.length_pos_of_mem hmem
        exact Nat.cast_ne_zero.mpr (by omega)
      rw [div_mul_cancel₀ _ hne]
      exact if_pos hname

theorem attributeSum_matching (structural : Bool) (t : Tag) (attrs : List Attribute) (sum : α) (weight : Nat) :
    value (attributeSum structural t sum weight attrs).1 =
        value sum + ((t.matching attrs).map fun p => value (gain structural p.1 p.2 : α)).sum ∧
      (attributeSum structural t sum weight attrs).2 = weight + attrs.length + (t.matching attrs).length := by
  unfold Tag.matching
  induction attrs generalizing sum weight with
  | nil => exact ⟨(add_zero _).symm, rfl⟩
  | cons a attrs ih =>
    rw [attributeSum_cons]
    cases hb : t.attr? a.name with
    | none =>
      rw [List.filterMap_cons_none (by rw [hb]; rfl), List.length_cons]
      obtain ⟨hsum, hweight⟩ := ih sum (weight + 1)
      refine ⟨hsum, ?_⟩
      rw [hweight]
      omega
    | some b =>
      rw [List.filterMap_cons_some (by rw [hb]; rfl), List.length_cons, List.length_cons, List.map_cons,
        List.sum_cons]
      obtain ⟨hsum, hweight⟩ := ih (sum + gain structural a b) (weight + 2)
      constructor
      · rw [hsum, value_add, add_assoc]
      · rw [hweight]
        omega

theorem value_attributeScore (structural : Bool) {s t : Tag} (hs : (s.attrs.map Attribute.name).Nodup)
    (ht : (t.attrs.map Attribute.name).Nodup) :
    value (attributeScore structural s t : α) = if s.attrs.length + t.attrs.length = 0 then 1
      else ((t.matching s.attrs).map fun p => value (gain structural p.1 p.2 : α)).sum /
        (s.attrs.length + t.attrs.length : Nat) := by
  obtain ⟨hsum, hweight⟩ := attributeSum_matching structural t s.attrs (zero : α) 0
  have hpairs : (s.matching t.attrs).length = (t.matching s.attrs).length := by
    rw [(Tag.matching_swap hs ht).length_eq, List.length_map]
  have hmissing := s.length_matching t.attrs
  have htotal : (attributeSum structural t (zero : α) 0 s.attrs).2 +
      (t.attrs.filter fun b => (s.attr? b.name).isNone).length = s.attrs.length + t.attrs.length := by
    rw [hweight]
    omega
  unfold attributeScore
  dsimp only
  rw [htotal]
  split
  · exact value_one
  · rw [value_div, hsum, value_ofNat, value_zero, zero_add]

theorem attributeScore_sub_swap (structural : Bool) {s t : Tag} (hs : (s.attrs.map Attribute.name).Nodup)
    (ht : (t.attrs.map Attribute.name).Nodup) :
    value (attributeScore structural s t : α) - value (attributeScore structural t s : α) = attributeTilt α s t := by
  have hpairs : ((s.matching t.attrs).map fun p => value (gain structural p.1 p.2 : α)).sum =
      ((t.matching s.attrs).map fun p => value (gain structural p.2 p.1 : α)).sum := by
    rw [((Tag.matching_swap hs ht).map _).sum_eq, List.map_map]
    rfl
  have htilt : ((t.matching s.attrs).map fun p => value (gain structural p.1 p.2 : α)).sum =
      ((t.matching s.attrs).map fun p => value (gain structural p.2 p.1 : α)).sum +
        attributeTilt α s t * (s.attrs.length + t.attrs.length : Nat) := by
    rw [← sum_pairTilt hs, ← List.sum_map_add]
    congr 1
    apply List.map_congr_left
    rintro ⟨a, b⟩ hab
    rw [← gain_sub_swap (Tag.mem_of_attr? (Tag.mem_matching.mp hab).2).2.symm]
    exact (add_sub_cancel _ _).symm
  rw [value_attributeScore structural hs ht, value_attributeScore structural ht hs, hpairs, htilt,
    Nat.add_comm t.attrs.length]
  split
  · next hzero =>
    have hnone : s.attr? "class" = none := by
      rw [Tag.attr?, List.length_eq_zero_iff.mp (Nat.add_eq_zero_iff.mp hzero).1]
      rfl
    rw [attributeTilt, Tag.fixedValue?, hnone, sub_self]
  · next hne =>
    have hpos : ((s.attrs.length + t.attrs.length : Nat) : Rat) ≠ 0 := Nat.cast_ne_zero.mpr hne
    rw [add_div, mul_div_cancel_right₀ _ hpos, add_sub_cancel_left]

section Tilt

variable (α)

mutual
/-- What the class lists of the elements at equal positions add to the score in this order, and not the other way
round. Each weighs as much as its element weighs in the score. -/
def tilt : Node → Node → Rat
  | .block _ _ t, b => tilt t b
  | .element s cs, b =>
    match b.core with
    | .element t ds =>
      if s.name = t.name then (attributeTilt α s t + tiltSum cs ds / (max cs.length ds.length : Nat)) / 3 else 0
    | _ => 0
  | _, _ => 0

def tiltSum : List Node → List Node → Rat
  | a :: as, b :: bs => tilt a b + tiltSum as bs
  | _, _ => 0
end

end Tilt

theorem childrenScore_sub_of_sum {structural : Bool} {as bs : List Node}
    (hsum : value (childrenSum structural (zero : α) as bs) - value (childrenSum structural (zero : α) bs as) =
      tiltSum α as bs) :
    value (childrenScore structural as bs : α) - value (childrenScore structural bs as : α) =
      tiltSum α as bs / (max as.length bs.length : Nat) := by
  unfold childrenScore
  rw [Nat.max_comm bs.length]
  dsimp only
  split
  · next hzero => rw [hzero, Nat.cast_zero, div_zero, sub_self]
  · rw [value_div, value_div, value_ofNat, ← sub_div, hsum]

theorem score_sub_of_not_element (structural : Bool) {a b : Node}
    (h : a.core.isElement = false ∨ b.core.isElement = false) :
    value (score structural a b : α) - value (score structural b a : α) = 0 := by
  rw [score_of_not_element a h, score_of_not_element b h.symm, leafScore_comm, sub_self]

mutual
theorem score_sub_swap (structural : Bool) : (a b : Node) → a.Proper → b.Proper →
    value (score structural a b : α) - value (score structural b a : α) = tilt α a b
  | .block _ _ t, b, ha, hb => by
    rw [score, score_block_right, tilt]
    exact score_sub_swap structural t b ha hb
  | .element s cs, b, ha, hb => by
    have hproper : b.core.Proper := Node.Proper.core b hb
    rw [tilt]
    cases hc : b.core with
    | element t ds =>
      rw [hc] at hproper
      have hattrs : value (attributeScore structural s t : α) - value (attributeScore structural t s : α) = _ :=
        attributeScore_sub_swap structural ha.1 hproper.1
      have hsum : value (childrenSum structural (zero : α) cs ds) - value (childrenSum structural zero ds cs) = _ :=
        childrenSum_sub_swap structural cs ds ha.2 hproper.2 zero zero
      rw [sub_self, zero_add] at hsum
      have hchildren := childrenScore_sub_of_sum hsum
      rw [← score_core_right b, ← score_core_left b, hc]
      dsimp only
      split
      · next hname =>
        rw [score_elements hname, score_elements hname.symm, value_div, value_div, value_add, value_add, value_add,
          value_add, value_ofNat, ← hattrs, ← hchildren]
        push_cast
        ring
      · next hname => rw [score_of_name_ne hname, score_of_name_ne (Ne.symm hname), sub_self]
    | _ => exact score_sub_of_not_element structural (.inr (by rw [hc]; rfl))
  | .literal .., _, _, _ => score_sub_of_not_element structural (.inl rfl)
  | .slot .., _, _, _ => score_sub_of_not_element structural (.inl rfl)
  | .content, _, _, _ => score_sub_of_not_element structural (.inl rfl)
  | .foreign, _, _, _ => score_sub_of_not_element structural (.inl rfl)

theorem childrenSum_sub_swap (structural : Bool) : (as bs : List Node) → Node.ProperList as → Node.ProperList bs →
    (x y : α) → value (childrenSum structural x as bs) - value (childrenSum structural y bs as) =
      value x - value y + tiltSum α as bs
  | [], bs, _, _, x, y => by
    cases bs <;> rw [childrenSum.eq_def, childrenSum.eq_def, tiltSum.eq_def, add_zero]
  | _ :: _, [], _, _, x, y => by rw [childrenSum.eq_def, childrenSum.eq_def, tiltSum.eq_def, add_zero]
  | a :: as, b :: bs, ha, hb, x, y => by
    have hfirst : value (score structural a b : α) - value (score structural b a : α) = _ :=
      score_sub_swap structural a b ha.1 hb.1
    rw [childrenSum, childrenSum, childrenSum_sub_swap structural as bs ha.2 hb.2, value_add, value_add, tiltSum,
      ← hfirst]
    ring
end

theorem childrenScore_sub_swap (structural : Bool) {as bs : List Node} (ha : Node.ProperList as)
    (hb : Node.ProperList bs) :
    value (childrenScore structural as bs : α) - value (childrenScore structural bs as : α) =
      tiltSum α as bs / (max as.length bs.length : Nat) := by
  apply childrenScore_sub_of_sum
  rw [childrenSum_sub_swap structural as bs ha hb, sub_self, zero_add]

theorem classList_of_sorted {v : String} (h : (Text.words v).Pairwise (· ≤ ·)) :
    classList (some v) = (Text.words v).eraseReps := by
  have hsorted : (Text.words v).Pairwise fun a b => decide (a ≤ b) = true := h.imp decide_eq_true
  rw [classList, sortClasses, Option.getD_some, List.mergeSort_of_pairwise hsorted]

def NoChoice (a b : List String) : Prop :=
  (unshared a b).1 = [] ∨ (unshared a b).2 = [] ∨ (unshared a b).1.length = 1 ∧ (unshared a b).2.length = 1

theorem classTilt_eq_zero {v w : Option String} (h : NoChoice (classList v) (classList w)) :
    classTilt α (classList v) (classList w) = 0 := by
  rw [classTilt, classListSimilarity_comm (classList_nodup v) (classList_nodup w) h, sub_self]

theorem attributeTilt_eq_zero_iff {s t : Tag} :
    attributeTilt α s t = 0 ↔ ∀ v w, s.fixedValue? "class" = some v → t.fixedValue? "class" = some w →
      classTilt α (classList (some v)) (classList (some w)) = 0 := by
  unfold attributeTilt
  split
  · next v w hv hw =>
    have hne : ((s.attrs.length + t.attrs.length : Nat) : Rat) ≠ 0 := by
      have hpos : 0 < s.attrs.length := by
        cases hattrs : s.attrs with
        | nil => simp [Tag.fixedValue?, Tag.attr?, hattrs] at hv
        | cons => exact Nat.succ_pos _
      exact Nat.cast_ne_zero.mpr (by omega)
    rw [div_eq_zero_iff, or_iff_left hne]
    constructor
    · rintro htilt v' w' hv' hw'
      rw [hv, Option.some.injEq] at hv'
      rw [hw, Option.some.injEq] at hw'
      rwa [← hv', ← hw']
    · intro htilt
      exact htilt v w hv hw
  · next hnone =>
    refine iff_of_true rfl ?_
    intro v w hv hw
    exact absurd hw (hnone v w hv)

mutual
def Settled : Node → Node → Prop
  | .block _ _ t, b => Settled t b
  | .element s cs, b =>
    match b.core with
    | .element t ds => s.name = t.name →
      (∀ v w, s.fixedValue? "class" = some v → t.fixedValue? "class" = some w →
        NoChoice (classList (some v)) (classList (some w))) ∧ SettledList cs ds
    | _ => True
  | _, _ => True

def SettledList : List Node → List Node → Prop
  | a :: as, b :: bs => Settled a b ∧ SettledList as bs
  | _, _ => True
end

mutual
theorem tilt_eq_zero : (a b : Node) → Settled a b → tilt α a b = 0
  | .block _ _ t, b, h => by
    rw [tilt]
    rw [Settled] at h
    exact tilt_eq_zero t b h
  | .element s cs, b, h => by
    rw [tilt]
    rw [Settled] at h
    split
    · next t ds hb =>
      rw [hb] at h
      split
      · next hname =>
        obtain ⟨hclasses, hchildren⟩ := h hname
        have hattrs : attributeTilt α s t = 0 :=
          attributeTilt_eq_zero_iff.mpr fun v w hv hw => classTilt_eq_zero (hclasses v w hv hw)
        rw [hattrs, tiltSum_eq_zero cs ds hchildren, zero_div, add_zero, zero_div]
      · rfl
    · rfl
  | .literal .., _, _ => rfl
  | .slot .., _, _ => rfl
  | .content, _, _ => rfl
  | .foreign, _, _ => rfl

theorem tiltSum_eq_zero : (as bs : List Node) → SettledList as bs → tiltSum α as bs = 0
  | [], _, _ => by rw [tiltSum.eq_def]
  | _ :: _, [], _ => by rw [tiltSum.eq_def]
  | a :: as, b :: bs, h => by rw [tiltSum, tilt_eq_zero a b h.1, tiltSum_eq_zero as bs h.2, add_zero]
end

/-- Without rounding the score of two nodes is symmetric exactly if the differences of the class lists in it cancel
out, and so it is if no class has a choice. The same goes for attributes and for children. -/
theorem score_symmetric_iff (structural : Bool) :
    (∀ a b : Node, a.Proper → b.Proper →
      ((score structural a b : Rat) = score structural b a ↔ tilt Rat a b = 0) ∧
        (Settled a b → (score structural a b : Rat) = score structural b a)) ∧
    (∀ s t : Tag, (s.attrs.map Attribute.name).Nodup → (t.attrs.map Attribute.name).Nodup →
      ((attributeScore structural s t : Rat) = attributeScore structural t s ↔
        ∀ v w, s.fixedValue? "class" = some v → t.fixedValue? "class" = some w →
          (classListSimilarity (classList (some v)) (classList (some w)) : Rat) =
            classListSimilarity (classList (some w)) (classList (some v)))) ∧
    ∀ as bs : List Node, Node.ProperList as → Node.ProperList bs →
      ((childrenScore structural as bs : Rat) = childrenScore structural bs as ↔ tiltSum Rat as bs = 0) := by
  refine ⟨?_, ?_, ?_⟩
  · intro a b ha hb
    have hdiff : (score structural a b : Rat) - score structural b a = tilt Rat a b :=
      score_sub_swap (α := Rat) structural a b ha hb
    have hiff : (score structural a b : Rat) = score structural b a ↔ tilt Rat a b = 0 := by
      rw [← hdiff, sub_eq_zero]
    exact ⟨hiff, fun h => hiff.mpr (tilt_eq_zero a b h)⟩
  · intro s t hs ht
    have hdiff : (attributeScore structural s t : Rat) - attributeScore structural t s = attributeTilt Rat s t :=
      attributeScore_sub_swap (α := Rat) structural hs ht
    rw [← sub_eq_zero, hdiff, attributeTilt_eq_zero_iff]
    simp only [classTilt, sub_eq_zero]
    rfl
  · intro as bs ha hb
    have hdiff : (childrenScore structural as bs : Rat) - childrenScore structural bs as =
        tiltSum Rat as bs / (max as.length bs.length : Nat) :=
      childrenScore_sub_swap (α := Rat) structural ha hb
    rw [← sub_eq_zero, hdiff, div_eq_zero_iff, Nat.cast_eq_zero]
    apply or_iff_left_of_imp
    intro hempty
    have hnil : as = [] := List.length_eq_zero_iff.mp (by omega)
    rw [hnil, tiltSum.eq_def]

section Badges

theorem classList_green : classList (some "badge-green") = ["badge-green"] := by
  rw [classList_of_sorted (by decide)]
  decide

theorem score_symmetric_badges :
    ∃ a b : Node, a.Proper ∧ b.Proper ∧ a.same b = false ∧ Settled a b ∧
      (score false a b : Rat) = score false b a := by
  let a : Node := .element ⟨"li", [.fixed "class" "badge-green"]⟩ []
  let b : Node := .element ⟨"li", [.fixed "class" "badge-blue"]⟩ []
  have hblue : classList (some "badge-blue") = ["badge-blue"] := by
    rw [classList_of_sorted (by decide)]
    decide
  have ha : a.Proper := ⟨by decide, trivial⟩
  have hb : b.Proper := ⟨by decide, trivial⟩
  have hsettled : Settled a b := by
    intro _
    refine ⟨?_, trivial⟩
    intro v w hv hw
    obtain rfl : "badge-green" = v := Option.some.inj hv
    obtain rfl : "badge-blue" = w := Option.some.inj hw
    rw [classList_green, hblue]
    exact .inr (.inr ⟨by decide, by decide⟩)
  exact ⟨a, b, ha, hb, by decide, hsettled, ((score_symmetric_iff false).1 a b ha hb).2 hsettled⟩

def greenBadge : Node := .element ⟨"li", [.fixed "class" "badge-green"]⟩ []

def navyBadge : Node := .element ⟨"li", [.fixed "class" "badge badge-navy"]⟩ []

theorem classList_navy : classList (some "badge badge-navy") = ["badge", "badge-navy"] := by
  rw [classList_of_sorted (by decide)]
  decide

theorem score_green_navy : (score false greenBadge navyBadge : Rat) = 79 / 88 := by
  have hsimilar : (classListSimilarity ["badge-green"] ["badge", "badge-navy"] : Rat) = 17 / 44 := by decide +kernel
  simp [greenBadge, navyBadge, score, Node.core, attributeScore, attributeSum, Tag.attr?, Attribute.name,
    booleanAttributes, valueSimilarity, classList_green, classList_navy, hsimilar, one, zero, ofNat]
  norm_num

theorem score_navy_green : (score false navyBadge greenBadge : Rat) = 115 / 132 := by
  have hsimilar : (classListSimilarity ["badge", "badge-navy"] ["badge-green"] : Rat) = 5 / 22 := by decide +kernel
  simp [greenBadge, navyBadge, score, Node.core, attributeScore, attributeSum, Tag.attr?, Attribute.name,
    booleanAttributes, valueSimilarity, classList_green, classList_navy, hsimilar, one, zero, ofNat]
  norm_num

/-- The green badge picks `badge-navy`, a class of its own family; the other way round `badge` comes first and takes
the green one. The two are like enough to be items of one list in one order only. -/
theorem score_order_matters :
    (score false greenBadge navyBadge : Rat) ≠ score false navyBadge greenBadge ∧
      loopThreshold ≤ (score false greenBadge navyBadge : Rat) ∧
      ¬ loopThreshold ≤ (score false navyBadge greenBadge : Rat) := by
  rw [score_green_navy, score_navy_green]
  decide +kernel

end Badges

end Score

end Stencil
