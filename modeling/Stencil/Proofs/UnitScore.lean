import Mathlib.Tactic.Linarith
import Stencil.Proofs.Classes
import Stencil.Proofs.EditDistance
import Stencil.Proofs.Exact
import Stencil.Proofs.Node.Alike

namespace Stencil.Score

open Grade Exact

variable {α : Type} [Grade α] [Exact α]

theorem value_ofNat_div (x : α) {n : Nat} (hpos : 0 < n) : value (x / ofNat n) ≤ 1 ↔ value x ≤ n := by
  rw [value_div, value_ofNat, div_le_one (Nat.cast_pos.mpr hpos)]

theorem value_div_eq_one (x : α) {n : Nat} (hpos : 0 < n) : value (x / ofNat n) = 1 ↔ value x = n := by
  rw [value_div, value_ofNat, div_eq_one_iff_eq (Nat.cast_ne_zero.mpr hpos.ne')]

theorem textSimilarity_le_one (a b : String) : value (textSimilarity a b : α) ≤ 1 := by
  unfold textSimilarity
  dsimp only
  split
  · exact value_one.le
  · split
    · rw [value_sub, value_div, value_one, value_ofNat, value_ofNat]
      have hratio : (0 : Rat) ≤ Text.editDistance a b / (max a.length b.length : Nat) :=
        div_nonneg (Nat.cast_nonneg _) (Nat.cast_nonneg _)
      linarith
    · rw [value_zero]
      exact zero_le_one

theorem eq_of_textSimilarity {a b : String} (h : value (textSimilarity a b : α) = 1) : a = b := by
  unfold textSimilarity at h
  dsimp only at h
  split at h
  · next hlength =>
    have ha : a.length = 0 := by omega
    have hb : b.length = 0 := by omega
    rw [String.length_eq_zero_iff.mp ha, String.length_eq_zero_iff.mp hb]
  · next hlength =>
    split at h
    · rw [value_sub, value_div, value_one, value_ofNat, value_ofNat] at h
      have hratio : (Text.editDistance a b : Rat) / (max a.length b.length : Nat) = 0 := by linarith
      rw [div_eq_zero_iff, Nat.cast_eq_zero, Nat.cast_eq_zero] at hratio
      exact Text.editDistance_eq_zero_iff.mp (hratio.resolve_right hlength)
    · rw [value_zero] at h
      exact absurd h zero_ne_one

theorem credit_lt_one {cls c : String} {s : α} (hs : s = textSimilarity cls c) (hne : cls ≠ c) (family : Prop)
    [Decidable family] : value (if family then (one + s) / ofNat 2 else s) < 1 := by
  have hlt : value s < 1 := by
    rw [hs]
    exact lt_of_le_of_ne (textSimilarity_le_one cls c) fun h => hne (eq_of_textSimilarity h)
  split
  · rw [value_div, value_add, value_one, value_ofNat, div_lt_one (by norm_num)]
    push_cast
    linarith
  · exact hlt

theorem creditLeftovers_le (credit : α) {leftovers remaining : List String}
    (hnew : ∀ cls ∈ leftovers, cls ∉ remaining) :
    value (creditLeftovers credit leftovers remaining) ≤ value credit + leftovers.length := by
  induction leftovers generalizing credit remaining with
  | nil => simp [creditLeftovers]
  | cons cls rest ih =>
    have hrest : (0 : Rat) ≤ rest.length := Nat.cast_nonneg _
    rw [creditLeftovers, List.length_cons]
    push_cast
    split
    · linarith
    · next i matched s hclosest =>
      obtain ⟨hmem, hs⟩ := closest_spec hclosest
      have hne : cls ≠ matched := fun h => hnew cls List.mem_cons_self (h ▸ hmem)
      have hnewer : ∀ x ∈ rest, x ∉ remaining.eraseIdx i := fun x hx hin =>
        hnew x (List.mem_cons_of_mem _ hx) (List.eraseIdx_subset hin)
      have hstep := ih (credit + if !(classFamily cls).isEmpty && classFamily cls == classFamily matched
          then (one + s) / ofNat 2 else s) hnewer
      have hcredit := credit_lt_one hs hne
        ((!(classFamily cls).isEmpty && classFamily cls == classFamily matched) = true)
      rw [value_add] at hstep
      linarith

theorem creditLeftovers_lt (credit : α) {leftovers remaining : List String}
    (hnew : ∀ cls ∈ leftovers, cls ∉ remaining) (hsome : leftovers ≠ []) :
    value (creditLeftovers credit leftovers remaining) < value credit + leftovers.length := by
  cases leftovers with
  | nil => exact absurd rfl hsome
  | cons cls rest =>
    have hrest : (0 : Rat) ≤ rest.length := Nat.cast_nonneg _
    rw [creditLeftovers, List.length_cons]
    push_cast
    split
    · linarith
    · next i matched s hclosest =>
      obtain ⟨hmem, hs⟩ := closest_spec hclosest
      have hne : cls ≠ matched := fun h => hnew cls List.mem_cons_self (h ▸ hmem)
      have hnewer : ∀ x ∈ rest, x ∉ remaining.eraseIdx i := fun x hx hin =>
        hnew x (List.mem_cons_of_mem _ hx) (List.eraseIdx_subset hin)
      have hstep := creditLeftovers_le (credit + if !(classFamily cls).isEmpty &&
          classFamily cls == classFamily matched then (one + s) / ofNat 2 else s) hnewer
      have hcredit := credit_lt_one hs hne
        ((!(classFamily cls).isEmpty && classFamily cls == classFamily matched) = true)
      rw [value_add] at hstep
      linarith

theorem unshared_spec (a b : List String) :
    (∀ cls ∈ (unshared a b).1, cls ∉ (unshared a b).2) ∧ (unshared a b).1.length ≤ a.length ∧
      ((unshared a b).1 = [] → b.Perm (a ++ (unshared a b).2)) ∧ (unshared a b).2 ⊆ b := by
  induction a generalizing b with
  | nil => simp [unshared]
  | cons cls rest ih =>
    rw [unshared]
    split
    · next hin =>
      obtain ⟨hnew, hlength, hperm, hsub⟩ := ih (b.erase cls)
      refine ⟨hnew, Nat.le_succ_of_le hlength, fun h => ?_, fun x hx => List.mem_of_mem_erase (hsub hx)⟩
      have hmem : cls ∈ b := List.contains_iff_mem.mp hin
      exact (List.perm_cons_erase hmem).trans ((hperm h).cons cls)
    · next hin =>
      obtain ⟨hnew, hlength, hperm, hsub⟩ := ih b
      refine ⟨?_, Nat.succ_le_succ hlength, fun h => absurd h (List.cons_ne_nil _ _), hsub⟩
      intro x hx
      rcases List.mem_cons.mp hx with rfl | hx
      · intro hmem
        exact hin (List.contains_iff_mem.mpr (hsub hmem))
      · exact hnew x hx

theorem classListSimilarity_le_one (a b : List String) : value (classListSimilarity a b : α) ≤ 1 := by
  obtain ⟨hnew, hlength, -, -⟩ := unshared_spec a b
  unfold classListSimilarity
  dsimp only
  split
  · exact value_one.le
  · next hne =>
    have hcredit := creditLeftovers_le (ofNat (a.length - (unshared a b).1.length) : α) hnew
    rw [value_ofNat, Nat.cast_sub hlength] at hcredit
    have hmax : (a.length : Rat) ≤ (max a.length b.length : Nat) := Nat.cast_le.mpr (Nat.le_max_left _ _)
    rw [value_ofNat_div _ (Nat.pos_of_ne_zero hne)]
    linarith

theorem perm_of_classListSimilarity {a b : List String} (h : value (classListSimilarity a b : α) = 1) :
    b.Perm a := by
  obtain ⟨hnew, hlength, hperm, -⟩ := unshared_spec a b
  unfold classListSimilarity at h
  dsimp only at h
  split at h
  · next hzero =>
    have ha : a.length = 0 := by omega
    have hb : b.length = 0 := by omega
    rw [List.length_eq_zero_iff.mp ha, List.length_eq_zero_iff.mp hb]
  · next hne =>
    rw [value_div_eq_one _ (Nat.pos_of_ne_zero hne)] at h
    have hmax : (a.length : Rat) ≤ (max a.length b.length : Nat) := Nat.cast_le.mpr (Nat.le_max_left _ _)
    by_cases hnone : (unshared a b).1 = []
    · have hpartners := hperm hnone
      rw [hnone, List.length_nil, Nat.sub_zero, creditLeftovers, value_ofNat, Nat.cast_inj] at h
      have hlengths := hpartners.length_eq
      rw [List.length_append] at hlengths
      have hrest : (unshared a b).2 = [] := List.length_eq_zero_iff.mp (by omega)
      rwa [hrest, List.append_nil] at hpartners
    · have hcredit := creditLeftovers_lt (ofNat (a.length - (unshared a b).1.length) : α) hnew hnone
      rw [value_ofNat, Nat.cast_sub hlength] at hcredit
      linarith

theorem classList_eq_of_similarity {v w : Option String}
    (h : value (classListSimilarity (classList v) (classList w) : α) = 1) : classList v = classList w :=
  (perm_of_classListSimilarity h).symm.eq_of_pairwise (fun _ _ _ _ => String.le_antisymm)
    (classList_pairwise v) (classList_pairwise w)

theorem valueSimilarity_le_one (structural : Bool) (name : String) (a b : Attribute) :
    value (valueSimilarity structural name a b : α) ≤ 1 := by
  unfold valueSimilarity
  split
  · split
    · exact classListSimilarity_le_one ..
    · split
      · exact value_one.le
      · exact textSimilarity_le_one ..
  · exact value_one.le

def gain (structural : Bool) (a b : Attribute) : α :=
  if booleanAttributes.contains a.name then ofNat 2 else one + valueSimilarity structural a.name a b

theorem gain_le_two (structural : Bool) (a b : Attribute) : value (gain structural a b : α) ≤ 2 := by
  unfold gain
  split
  · rw [value_ofNat]
    norm_num
  · have hvalue : value (valueSimilarity structural a.name a b : α) ≤ 1 := valueSimilarity_le_one ..
    rw [value_add, value_one]
    linarith

theorem alike_of_gain {n v m w : String} (h : value (gain false (.fixed n v) (.fixed m w) : α) = 2) :
    Attribute.Alike (.fixed n v) (.fixed m w) := by
  change Merge.sameAttributeValue n v w = true
  unfold gain at h
  rw [Attribute.name] at h
  unfold Merge.sameAttributeValue
  split at h
  · next hboolean => rw [if_pos hboolean]
  · next hboolean =>
    rw [if_neg hboolean]
    rw [value_add, value_one] at h
    have hvalue : value (valueSimilarity false n (.fixed n v) (.fixed m w) : α) = 1 := by linarith
    unfold valueSimilarity at hvalue
    dsimp only at hvalue
    split at hvalue
    · next hclass =>
      rw [if_pos hclass, beq_iff_eq]
      exact classList_eq_of_similarity hvalue
    · next hclass =>
      rw [if_neg hclass, beq_iff_eq]
      exact eq_of_textSimilarity hvalue

omit [Exact α] in
theorem attributeSum_cons {structural : Bool} {other : Tag} {a : Attribute} {rest : List Attribute} {sum : α}
    {weight : Nat} : attributeSum structural other sum weight (a :: rest) =
      match other.attr? a.name with
      | none => attributeSum structural other sum (weight + 1) rest
      | some b => attributeSum structural other (sum + gain structural a b) (weight + 2) rest := rfl

theorem attributeSum_le (structural : Bool) (other : Tag) (attrs : List Attribute) {sum : α} {weight : Nat}
    (h : value sum ≤ weight) : value (attributeSum structural other sum weight attrs).1 ≤
      (attributeSum structural other sum weight attrs).2 := by
  induction attrs generalizing sum weight with
  | nil => exact h
  | cons a attrs ih =>
    rw [attributeSum_cons]
    split
    · apply ih
      push_cast
      linarith
    · next b _ =>
      have hgain : value (gain structural a b : α) ≤ 2 := gain_le_two ..
      apply ih
      rw [value_add]
      push_cast
      linarith

theorem attributeSum_lt {structural : Bool} {other : Tag} {attrs : List Attribute} {sum : α} {weight : Nat}
    (h : value sum < weight) : value (attributeSum structural other sum weight attrs).1 <
      (attributeSum structural other sum weight attrs).2 := by
  induction attrs generalizing sum weight with
  | nil => exact h
  | cons a attrs ih =>
    rw [attributeSum_cons]
    split
    · apply ih
      push_cast
      linarith
    · next b _ =>
      have hgain : value (gain structural a b : α) ≤ 2 := gain_le_two ..
      apply ih
      rw [value_add]
      push_cast
      linarith

theorem gain_of_attributeSum {structural : Bool} {other : Tag} {attrs : List Attribute} {sum : α} {weight : Nat}
    (hle : value sum ≤ weight) (h : value (attributeSum structural other sum weight attrs).1 =
      (attributeSum structural other sum weight attrs).2) :
    ∀ a ∈ attrs, ∃ b, other.attr? a.name = some b ∧ value (gain structural a b : α) = 2 := by
  induction attrs generalizing sum weight with
  | nil => simp
  | cons a attrs ih =>
    rw [attributeSum_cons] at h
    cases hb : other.attr? a.name with
    | none =>
      rw [hb] at h
      refine absurd h (attributeSum_lt ?_).ne
      push_cast
      linarith
    | some b =>
      rw [hb] at h
      dsimp only at h
      have hgain : value (gain structural a b : α) ≤ 2 := gain_le_two ..
      have htwo : value (gain structural a b : α) = 2 := by
        by_contra hne
        have hlt := lt_of_le_of_ne hgain hne
        refine absurd h (attributeSum_lt ?_).ne
        rw [value_add]
        push_cast
        linarith
      intro c hc
      rcases List.mem_cons.mp hc with rfl | hc
      · exact ⟨b, hb, htwo⟩
      · refine ih ?_ h c hc
        rw [value_add, htwo]
        push_cast
        linarith

theorem attributeScore_le_one (structural : Bool) (s t : Tag) : value (attributeScore structural s t : α) ≤ 1 := by
  unfold attributeScore
  dsimp only
  split
  · exact value_one.le
  · next hne =>
    have hzero : value (zero : α) ≤ (0 : Nat) := by rw [value_zero, Nat.cast_zero]
    have hsum := attributeSum_le structural t s.attrs hzero
    rw [value_ofNat_div _ (Nat.pos_of_ne_zero hne)]
    push_cast
    have hmissing : (0 : Rat) ≤ (t.attrs.filter fun b => (s.attr? b.name).isNone).length := Nat.cast_nonneg _
    linarith

theorem alike_of_attributeScore {s t : Tag} (hname : s.name = t.name) (hs : ∀ a ∈ s.attrs, a.isFixed = true)
    (ht : ∀ b ∈ t.attrs, b.isFixed = true) (hnames : (t.attrs.map Attribute.name).Nodup)
    (h : value (attributeScore false s t : α) = 1) : s.Alike t := by
  have hzero : value (zero : α) ≤ (0 : Nat) := by rw [value_zero, Nat.cast_zero]
  have hsum := attributeSum_le false t s.attrs hzero
  have hfull : value (attributeSum false t (zero : α) 0 s.attrs).1 = (attributeSum false t (zero : α) 0 s.attrs).2 ∧
      (t.attrs.filter fun b => (s.attr? b.name).isNone).length = 0 := by
    unfold attributeScore at h
    dsimp only at h
    split at h
    · next hnothing =>
      obtain ⟨hweight, hmissing⟩ := Nat.add_eq_zero_iff.mp hnothing
      have hnonneg := attributeSum_nonneg false t s.attrs 0 (value_zero (α := α)).ge
      rw [hweight, Nat.cast_zero] at hsum
      rw [hweight, Nat.cast_zero]
      exact ⟨le_antisymm hsum hnonneg, hmissing⟩
    · next hne =>
      rw [value_div_eq_one _ (Nat.pos_of_ne_zero hne)] at h
      push_cast at h
      have hmissing : (0 : Rat) ≤ (t.attrs.filter fun b => (s.attr? b.name).isNone).length := Nat.cast_nonneg _
      constructor
      · linarith
      · have hnone : ((t.attrs.filter fun b => (s.attr? b.name).isNone).length : Rat) = 0 := by linarith
        exact_mod_cast hnone
  -- with nothing missing and a full sum every attribute has gained all that it could
  have hgains := gain_of_attributeSum hzero hfull.1
  have hfound : ∀ a ∈ s.attrs, ∃ b, t.attr? a.name = some b ∧ a.Alike b := by
    intro a ha
    obtain ⟨b, hb, hgain⟩ := hgains a ha
    have hfixed := hs a ha
    have hfixed' := ht b (Tag.mem_of_attr? hb).1
    refine ⟨b, hb, ?_⟩
    cases a <;> cases hfixed
    cases b <;> cases hfixed'
    exact alike_of_gain hgain
  refine ⟨hname, hfound, ?_⟩
  intro b hb
  have hsome : ¬ (s.attr? b.name).isNone = true :=
    List.filter_eq_nil_iff.mp (List.length_eq_zero_iff.mp hfull.2) b hb
  obtain ⟨a, ha⟩ := Option.ne_none_iff_exists'.mp (by simpa using hsome)
  obtain ⟨hmem, hsame⟩ := Tag.mem_of_attr? ha
  obtain ⟨b', hb', hab⟩ := hfound a hmem
  rw [hsame, Tag.attr?_of_mem hnames hb] at hb'
  cases hb'
  exact ⟨a, ha, hab⟩

theorem mean_eq_one {x : α} : value ((one + x) / ofNat 2) = 1 ↔ value x = 1 := by
  rw [value_div_eq_one _ (by norm_num), value_add, value_one]
  push_cast
  constructor <;> intro h <;> linarith

theorem mean_le_one {x : α} (h : value x ≤ 1) : value ((one + x) / ofNat 2) ≤ 1 := by
  rw [value_ofNat_div _ (by norm_num), value_add, value_one]
  push_cast
  linarith

theorem leafScore_le_one (structural : Bool) (a b : Node) : value (leafScore structural a b : α) ≤ 1 := by
  unfold leafScore
  split
  · split
    · exact value_one.le
    · exact mean_le_one (textSimilarity_le_one ..)
  · split
    · exact mean_le_one (textSimilarity_le_one ..)
    · rw [value_zero]
      exact zero_le_one
  all_goals
    repeat' split
    all_goals simp [half, value_div, value_ofNat]
  all_goals norm_num

theorem childrenScore_le_of_sum {structural : Bool} {as bs : List Node}
    (hsum : value (childrenSum structural (zero : α) as bs) ≤ value (zero : α) + as.length) :
    value (childrenScore structural as bs : α) ≤ 1 := by
  rw [value_zero, zero_add] at hsum
  unfold childrenScore
  dsimp only
  split
  · exact value_one.le
  · next hne =>
    rw [value_ofNat_div _ (Nat.pos_of_ne_zero hne)]
    exact hsum.trans (Nat.cast_le.mpr (Nat.le_max_left _ _))

mutual
theorem score_le_one (structural : Bool) : (a b : Node) → value (score structural a b : α) ≤ 1
  | .block _ _ t, b => by
    rw [score]
    exact score_le_one structural t b
  | .element s cs, b => by
    rw [score]
    split
    · split
      · next t ds _ _ =>
        have hattrs : value (attributeScore structural s t : α) ≤ 1 := attributeScore_le_one ..
        have hchildren : value (childrenScore structural cs ds : α) ≤ 1 :=
          childrenScore_le_of_sum (childrenSum_le structural cs ds zero)
        change value ((one + attributeScore structural s t + childrenScore structural cs ds) / ofNat 3) ≤ 1
        rw [value_ofNat_div _ (by norm_num), value_add, value_add, value_one]
        push_cast
        linarith
      · rw [value_zero]
        exact zero_le_one
    · exact leafScore_le_one ..
  | .literal k v, b => by rw [score]; exact leafScore_le_one ..
  | .slot k r, b => by rw [score]; exact leafScore_le_one ..
  | .content, b => by rw [score]; exact leafScore_le_one ..
  | .foreign, b => by rw [score]; exact leafScore_le_one ..

theorem childrenSum_le (structural : Bool) : (as bs : List Node) → (sum : α) →
    value (childrenSum structural sum as bs) ≤ value sum + as.length
  | [], _, _ => by simp [childrenSum.eq_def]
  | _ :: _, [], sum => by
    rw [childrenSum.eq_def]
    simp only [le_add_iff_nonneg_right, Nat.cast_nonneg]
  | a :: as, b :: bs, sum => by
    have hscore : value (score structural a b : α) ≤ 1 := score_le_one structural a b
    have hrest : value (childrenSum structural (sum + score structural a b) as bs) ≤ _ :=
      childrenSum_le structural as bs _
    rw [value_add] at hrest
    rw [childrenSum, List.length_cons]
    push_cast
    linarith
end

theorem childrenSum_le_right (structural : Bool) (as bs : List Node) (sum : α) :
    value (childrenSum structural sum as bs) ≤ value sum + bs.length := by
  induction as generalizing bs sum with
  | nil =>
    rw [childrenSum.eq_def]
    simp only [le_add_iff_nonneg_right, Nat.cast_nonneg]
  | cons a as ih =>
    cases bs with
    | nil => simp [childrenSum.eq_def]
    | cons b bs =>
      have hscore : value (score structural a b : α) ≤ 1 := score_le_one structural a b
      have hrest := ih bs (sum + score structural a b)
      rw [value_add] at hrest
      rw [childrenSum, List.length_cons]
      push_cast
      linarith

omit [Exact α] in
theorem score_literals (k l : LiteralKind) (v w : String) :
    (score false (.literal k v) (.literal l w) : α) =
      if k = l then (one + textSimilarity v w) / ofNat 2 else zero := by
  cases k <;> cases l <;> rfl

theorem childrenScore_le_one (structural : Bool) (as bs : List Node) :
    value (childrenScore structural as bs : α) ≤ 1 :=
  childrenScore_le_of_sum (childrenSum_le structural as bs zero)

mutual
theorem alike_of_score : (a b : Node) → a.Literal → b.Literal → value (score false a b : α) = 1 → a.Alike b
  | .literal k v, b, _, hb, h => by
    cases b with
    | literal l w =>
      rw [score_literals] at h
      split at h
      · next hkl => exact ⟨hkl, eq_of_textSimilarity (mean_eq_one.mp h)⟩
      · rw [value_zero] at h
        exact absurd h zero_ne_one
    | element t ds =>
      have hzero : (score false (.literal k v) (.element t ds) : α) = zero := by cases k <;> rfl
      rw [hzero, value_zero] at h
      exact absurd h zero_ne_one
    | _ => exact hb.elim
  | .element s cs, b, ha, hb, h => by
    cases b with
    | literal l w =>
      have hzero : (score false (.element s cs) (.literal l w) : α) = zero := by cases l <;> rfl
      rw [hzero, value_zero] at h
      exact absurd h zero_ne_one
    | element t ds =>
      by_cases hname : s.name = t.name
      · have hattrs : value (attributeScore false s t : α) ≤ 1 := attributeScore_le_one ..
        have hchildren : value (childrenScore false cs ds : α) ≤ 1 := childrenScore_le_one ..
        rw [score_elements hname, value_div_eq_one _ (by norm_num), value_add, value_add, value_one] at h
        push_cast at h
        -- the mean of three scores of at most 1 is 1 only if each of them is
        have htag : value (attributeScore false s t : α) = 1 := by linarith
        have hfull : value (childrenScore false cs ds : α) = 1 := by linarith
        refine ⟨alike_of_attributeScore hname ha.2.1 hb.2.1 hb.1 htag, ?_⟩
        unfold childrenScore at hfull
        dsimp only at hfull
        split at hfull
        · next hzero =>
          have hcs : cs = [] := List.length_eq_zero_iff.mp (by omega)
          have hds : ds = [] := List.length_eq_zero_iff.mp (by omega)
          rw [hcs, hds]
          trivial
        · next hne =>
          rw [value_div_eq_one _ (Nat.pos_of_ne_zero hne)] at hfull
          exact alikeList_of_childrenSum cs ds ha.2.2 hb.2.2 (by rw [hfull, value_zero, zero_add])
      · rw [score_of_name_ne hname, value_zero] at h
        exact absurd h zero_ne_one
    | _ => exact hb.elim

theorem alikeList_of_childrenSum : (as bs : List Node) → Node.LiteralList as → Node.LiteralList bs →
    {sum : α} → value (childrenSum false sum as bs) = value sum + (max as.length bs.length : Nat) →
    Node.AlikeList as bs
  | [], [], _, _, _, _ => trivial
  | [], b :: bs, _, _, sum, h => by
    have hle := childrenSum_le false [] (b :: bs) sum
    rw [h, List.length_nil, List.length_cons, Nat.zero_max] at hle
    push_cast at hle
    have hpos : (0 : Rat) ≤ bs.length := Nat.cast_nonneg _
    linarith
  | a :: as, [], _, _, sum, h => by
    have hle := childrenSum_le_right false (a :: as) [] sum
    rw [h, List.length_nil, List.length_cons, Nat.max_zero] at hle
    push_cast at hle
    have hpos : (0 : Rat) ≤ as.length := Nat.cast_nonneg _
    linarith
  | a :: as, b :: bs, has, hbs, sum, h => by
    have hscore : value (score false a b : α) ≤ 1 := score_le_one false a b
    have hleft := childrenSum_le false as bs (sum + score false a b)
    rw [childrenSum, List.length_cons, List.length_cons, Nat.succ_max_succ] at h
    have hmax : ((max as.length bs.length + 1 : Nat) : Rat) = (max as.length bs.length : Nat) + 1 := Nat.cast_succ _
    have hshorter : value (childrenSum false (sum + score false a b) as bs) ≤
        value sum + value (score false a b : α) + (max as.length bs.length : Nat) := by
      rw [value_add] at hleft
      exact hleft.trans (add_le_add_right (Nat.cast_le.mpr (Nat.le_max_left _ _)) _)
    have hone : value (score false a b : α) = 1 := by linarith
    have hothers : value (childrenSum false (sum + score false a b) as bs) =
        value (sum + score false a b) + (max as.length bs.length : Nat) := by
      rw [h, value_add, hone, hmax]
      linarith
    exact ⟨alike_of_score a b has.1 hbs.1 hone, alikeList_of_childrenSum as bs has.2 hbs.2 hothers⟩
end

end Stencil.Score
