import Stencil.Proofs.Collection.Fold
import Stencil.Proofs.Merge.Weave

/-!
Reading pages again. When two varied pages have been merged, both of them are woven into their layout, and
merging either into it a second time leaves it as it is.
-/

namespace Stencil.Merge

open Node

variable {chain : Scope} {around : Around} {side : Side} {s t : MergeState}

inductive Refound (page : Tag) : Attribute → Prop
  | fixed {n m v w : String} : page.attr? n = some (.fixed m w) → sameAttributeValue n v w = true →
    Refound page (.fixed n v)
  | known {c : Attribute} {r : Reference} {m w : String} : c.reference? = some r →
    page.attr? c.name = some (.fixed m w) → Refound page c
  | missing {n : String} {r : Reference} : page.attr? n = none → Refound page (.optional n r)

theorem Matched.of_refound {page : Tag} {c d : Attribute} (hc : Refound page c)
    (h : Matched chain page c s d t) : d = c := by
  cases h with
  | paired hb h =>
    cases hc with
    | fixed hfound hsame =>
      cases hfound.symm.trans hb
      cases h with
      | same _ => rfl
      | differ hdiffer _ => simp [hsame] at hdiffer
      | known hr _ _ _ => cases hr
      | readRight hr _ => cases hr
      | readLeft hr _ => cases hr
    | known hr hfound =>
      cases hfound.symm.trans hb
      cases h with
      | readRight _ _ => rfl
      | known _ hnone _ _ => exact (hnone rfl).elim
      | readLeft hnone _ => cases hnone
      | same _ => cases hr
      | differ _ _ => cases hr
    | missing hnone => cases hnone.symm.trans hb
  | lonely hb h =>
    cases hc with
    | fixed hfound _ => cases hfound.symm.trans hb
    | known _ hfound => cases hfound.symm.trans hb
    | missing _ =>
      cases h with
      | known hr _ =>
        cases hr
        rfl

theorem Each.eq_self {β : Type} {step : β → MergeState → β → MergeState → Prop} {as cs : List β}
    (h : Each step as s cs t) (hstep : ∀ a ∈ as, ∀ s c t, step a s c t → c = a) : cs = as := by
  induction h with
  | nil => rfl
  | cons ha _ ih =>
    rw [hstep _ (List.mem_cons_self ..) _ _ _ ha, ih fun a hm => hstep a (List.mem_cons_of_mem _ hm)]

theorem missingIn_eq_nil {owner : Tag} {bs : List Attribute}
    (h : ∀ b ∈ bs, b.name ∈ owner.attrs.map Attribute.name) : missingIn owner bs = [] := by
  refine List.filter_eq_nil_iff.mpr fun b hb => ?_
  cases hf : owner.attr? b.name with
  | some a => simp
  | none => exact (attr?_eq_none hf (h b hb)).elim

theorem Returns.mergeAttributes_refound {owner page : Tag} {cs : List Attribute}
    (hall : ∀ c ∈ owner.attrs, Refound page c)
    (hnames : ∀ b ∈ page.attrs, b.name ∈ owner.attrs.map Attribute.name)
    (h : Returns (Merge.mergeAttributes chain owner page) s cs t) : cs = owner.attrs := by
  obtain ⟨left, right, u, rfl, hleft, hright⟩ := Returns.mergeAttributes h
  rw [missingIn_eq_nil hnames] at hright
  cases hright
  rw [List.append_nil]
  exact hleft.eq_self fun a ha s c t hm => hm.of_refound (hall a ha)

theorem attr?_of_isFixed {tag : Tag} (hnames : (tag.attrs.map Attribute.name).Nodup)
    (hfixed : ∀ a ∈ tag.attrs, a.isFixed = true) {a : Attribute} (ha : a ∈ tag.attrs) :
    ∃ n v, a = .fixed n v ∧ tag.attr? n = some (.fixed n v) := by
  have hfound := Tag.attr?_of_mem hnames ha
  cases a with
  | fixed n v => exact ⟨n, v, rfl, hfound⟩
  | _ => cases hfixed _ ha

theorem Matched.refinds {owner other : Tag} {n v : String} {c : Attribute}
    (hn : owner.attr? n = some (.fixed n v)) (hfixed : ∀ b ∈ other.attrs, b.isFixed = true)
    (h : Matched chain other (.fixed n v) s c t) : Refound owner c ∧ Refound other c := by
  cases h with
  | @paired b _ _ _ hb h =>
    have hisFixed := hfixed b (attr?_eq_some hb).1
    cases h with
    | known hr _ _ _ => cases hr
    | readRight hr _ => cases hr
    | readLeft hr _ => cases c <;> first | exact absurd hisFixed Bool.false_ne_true | cases hr
    | same hsame => exact ⟨.fixed hn (sameAttributeValue_self n v), .fixed hb hsame⟩
    | differ _ _ => exact ⟨.known rfl hn, .known rfl hb⟩
  | lonely hb h =>
    cases h with
    | fixed _ => exact ⟨.known rfl hn, .missing hb⟩
    | known hr _ => cases hr

theorem Lonely.refinds {owner other : Tag} {n v : String} {c : Attribute}
    (hn : other.attr? n = some (.fixed n v)) (hmissing : owner.attr? n = none)
    (h : Lonely chain side (.fixed n v) s c t) : Refound owner c ∧ Refound other c := by
  cases h with
  | fixed _ => exact ⟨.missing hmissing, .known rfl hn⟩
  | known hr _ => cases hr

theorem Returns.mergeAttributes_refinds {owner other : Tag} {cs : List Attribute}
    (hnames : (owner.attrs.map Attribute.name).Nodup) (hfixed : ∀ a ∈ owner.attrs, a.isFixed = true)
    (hnames' : (other.attrs.map Attribute.name).Nodup) (hfixed' : ∀ b ∈ other.attrs, b.isFixed = true)
    (h : Returns (Merge.mergeAttributes chain owner other) s cs t) :
    (∀ c ∈ cs, Refound owner c ∧ Refound other c) ∧
      (∀ a ∈ owner.attrs, a.name ∈ cs.map Attribute.name) ∧
      ∀ b ∈ other.attrs, b.name ∈ cs.map Attribute.name := by
  obtain ⟨left, right, u, rfl, hleft, hright⟩ := Returns.mergeAttributes h
  have hl := hleft.map_eq (f := Attribute.name) (g := Attribute.name) fun _ _ _ _ hm => hm.name
  have hr := hright.map_eq (f := Attribute.name) (g := Attribute.name) fun _ _ _ _ hm => hm.name
  rw [List.map_append, hl, hr]
  have howner : ∀ a ∈ owner.attrs, a.name ∈ owner.attrs.map Attribute.name := fun a ha =>
    List.mem_map_of_mem ha
  refine ⟨fun c hc => ?_, fun a ha => List.mem_append_left _ (howner a ha), fun b hb => ?_⟩
  · rcases List.mem_append.mp hc with hc | hc
    · refine hleft.of_mem (P := fun c => Refound owner c ∧ Refound other c) (fun a ha s c t hm => ?_) c hc
      obtain ⟨n, v, rfl, hn⟩ := attr?_of_isFixed hnames hfixed ha
      exact hm.refinds hn hfixed'
    · refine hright.of_mem (P := fun c => Refound owner c ∧ Refound other c)
        (fun b hb s c t hm => ?_) c hc
      obtain ⟨hmem, hno⟩ := List.mem_filter.mp hb
      obtain ⟨n, v, rfl, hn⟩ := attr?_of_isFixed hnames' hfixed' hmem
      have hmissing : owner.attr? (Attribute.fixed n v).name = none := by simpa using hno
      exact hm.refinds hn hmissing
  · cases hf : owner.attr? b.name with
    | some a =>
      obtain ⟨hmem, hname⟩ := attr?_eq_some hf
      exact List.mem_append_left _ (hname ▸ howner a hmem)
    | none => exact List.mem_append_right _ (List.mem_map_of_mem (List.mem_filter.mpr ⟨hb, by simp [hf]⟩))

theorem Paired.size_le {a b c : Attribute} (h : Paired chain a b s c t) : c.size ≤ a.size := by
  have htwo := a.two_le_size
  cases h with
  | known _ _ hc _ => rwa [Attribute.size_of_reference hc]
  | readRight _ _ => exact Nat.le_refl _
  | readLeft hr _ => rwa [Attribute.size_of_reference hr]
  | same _ => exact Nat.le_refl _
  | differ _ _ => exact htwo

theorem Lonely.size_le {a c : Attribute} (h : Lonely chain side a s c t) : c.size ≤ a.size := by
  have htwo := a.two_le_size
  cases h <;> exact htwo

theorem Each.sum_le {β γ : Type} {step : β → MergeState → γ → MergeState → Prop} {f : β → Nat}
    {g : γ → Nat} {as : List β} {cs : List γ} (h : Each step as s cs t) (hstep : ∀ a s c t, step a s c t → g c ≤ f a) :
    (cs.map g).sum ≤ (as.map f).sum := by
  induction h with
  | nil => exact Nat.le_refl 0
  | cons ha _ ih =>
    have hhead := hstep _ _ _ _ ha
    rw [List.map_cons, List.map_cons, List.sum_cons, List.sum_cons]
    omega

theorem Returns.mergeAttributes_size {owner other : Tag} {cs : List Attribute}
    (h : Returns (Merge.mergeAttributes chain owner other) s cs t) :
    (cs.map Attribute.size).sum ≤ (owner.attrs.map Attribute.size).sum + (other.attrs.map Attribute.size).sum := by
  obtain ⟨left, right, u, rfl, hleft, hright⟩ := Returns.mergeAttributes h
  have hl := hleft.sum_le (f := Attribute.size) (g := Attribute.size) fun _ _ _ _ hm => by
    cases hm with
    | paired _ hm => exact hm.size_le
    | lonely _ hm => exact hm.size_le
  have hr := hright.sum_le (f := Attribute.size) (g := Attribute.size) fun _ _ _ _ hm => hm.size_le
  have hmissing : ((missingIn owner other.attrs).map Attribute.size).sum ≤ (other.attrs.map Attribute.size).sum :=
    (List.filter_sublist.map _).sum_le_sum fun _ _ => Nat.zero_le _
  rw [List.map_append, List.sum_append]
  omega

theorem refound_self {tag : Tag} (hnames : (tag.attrs.map Attribute.name).Nodup)
    (hfixed : ∀ a ∈ tag.attrs, a.isFixed = true) : ∀ a ∈ tag.attrs, Refound tag a := by
  intro a ha
  obtain ⟨n, v, rfl, hn⟩ := attr?_of_isFixed hnames hfixed ha
  exact .fixed hn (sameAttributeValue_self n v)

variable {α : Type} [Grade α]

theorem Absorbs.of_step {n a : Node} (h : ∀ fuel chain around s m t,
    Step α (mergeNode α fuel) chain around s n a m t → m = n) : Absorbs α n a := by
  intro fuel chain around s m t hm
  cases fuel with
  | zero => simp [mergeNode] at hm
  | succ fuel => exact h _ _ _ _ _ _ (Returns.mergeStep hm)

theorem absorbs_slot {k : SlotKind} {r : Reference} {a : Node} (ha : a.Literal) :
    Absorbs α (.slot k r) a := by
  refine .of_step fun _ _ _ _ _ _ h => ?_
  cases h with
  | conditionalRight => exact ha.elim
  | absorbLeft => exact ha.elim
  | readLeft => exact ha.elim
  | readRight => rfl
  | kept => rfl

theorem absorbs_text {v w : String} (h : Text.strip v = Text.strip w) :
    Absorbs α (.literal .text v) (.literal .text w) := by
  refine .of_step fun _ _ _ _ _ _ hstep => ?_
  cases hstep with
  | texts hne _ => exact (hne h).elim
  | kept => rfl

theorem absorbs_literal {k : LiteralKind} {v w : String} (hk : k ≠ .text) :
    Absorbs α (.literal k v) (.literal k w) := by
  refine .of_step fun _ _ _ _ _ _ hstep => ?_
  cases hstep with
  | texts _ _ => exact (hk rfl).elim
  | kept => rfl

theorem absorbs_conditional {r : Reference} {template a : Node} (ha : a.Literal)
    (h : Absorbs α template a) : Absorbs α (.block .conditional r template) a := by
  refine .of_step fun _ _ _ _ _ _ hstep => ?_
  cases hstep with
  | conditionals => exact ha.elim
  | conditionalLeft hm _ _ =>
    obtain ⟨u, hm, -⟩ := returns_inScope.mp hm
    exact congrArg (Node.block .conditional r) (h _ _ _ _ _ _ hm)
  | conditionalRight => exact ha.elim
  | absorbLeft => exact ha.elim
  | readLeft => exact ha.elim
  | kept => rfl

theorem absorbs_drawing {tag page : Tag} {cs ds : List Node} {x : String} (hsvg : tag.name = "svg")
    (hx : Markup.render [.element tag cs] = .ok x) (hy : Markup.render [.element page ds] = .ok x) :
    Absorbs α (.element tag cs) (.element page ds) := by
  refine .of_step fun _ _ _ _ _ _ hstep => ?_
  cases hstep with
  | elements _ hno _ _ => exact (hno hsvg).elim
  | drawings _ _ hx' hy' hne _ =>
    rw [hx] at hx'
    rw [hy] at hy'
    exact (hne (Except.ok.inj (hx'.symm.trans hy'))).elim
  | kept => rfl

open Grade

variable [Counting α] [Positive α] [Ordered α] [Selective α]

theorem absorbs_element {tag page : Tag} {ns ds : List Node}
    (hsvg : tag.name ≠ "svg") (hno : Unmarked ⟨some tag, some page⟩)
    (hall : ∀ c ∈ tag.attrs, Refound page c)
    (hnames : ∀ b ∈ page.attrs, b.name ∈ tag.attrs.map Attribute.name) (hw : Weave α ns ds)
    (hds : LiteralList ds) (hkinds : (ds.map kind).Nodup)
    (hfits : Counting.Fits α (sizeOfList ns + sizeOfList ds)) :
    Absorbs α (.element tag ns) (.element page ds) := by
  refine .of_step fun _ _ _ _ _ _ hstep => ?_
  cases hstep with
  | elements _ _ hattrs hns =>
    rw [Returns.mergeAttributes_refound hall hnames hattrs, hw.reads_siblings hno hds hkinds hfits hns]
  | drawings hsvg' _ _ _ _ _ => exact (hsvg hsvg').elim
  | kept => rfl

-- the linter sees no use of the order in the second theorem alone
set_option linter.unusedSectionVars false in
mutual
theorem absorbs_self : (a : Node) → a.Literal → a.Varied → Counting.Fits α (2 * a.size) → Absorbs α a a
  | .literal k v, _, _, _ => by
    by_cases hk : k = .text
    · rw [hk]
      exact absorbs_text rfl
    · exact absorbs_literal hk
  | .element tag cs, ⟨hnames, hfixed, hcs⟩, ⟨hflow, hinline, hdrawing⟩, hfits => by
    by_cases hsvg : tag.name = "svg"
    · refine .of_step fun _ _ _ _ _ _ hstep => ?_
      cases hstep with
      | elements _ hno _ _ => exact (hno hsvg).elim
      | drawings _ _ hx hy hne _ => exact (hne (Except.ok.inj (hx.symm.trans hy))).elim
      | kept => rfl
    · obtain ⟨hvaried, hkinds⟩ := hdrawing.resolve_left hsvg
      rw [Node.size] at hfits
      have hw : Weave α cs cs := weave_self cs hcs hvaried hkinds (Counting.fits_mono (by omega) hfits)
      exact absorbs_element hsvg ⟨hflow, hflow, hinline⟩ (refound_self hnames hfixed)
        (fun b hb => List.mem_map_of_mem hb) hw hcs hkinds (Counting.fits_mono (by omega) hfits)

theorem weave_self : (as : List Node) → LiteralList as → VariedList as → (as.map kind).Nodup →
    Counting.Fits α (2 * sizeOfList as) → Weave α as as
  | [], _, _, _, _ => .nil
  | a :: as, hl, hv, hk, hfits => by
    rw [sizeOfList] at hfits
    have hloop : ∀ r template, a ≠ .block .loop r template := fun _ _ he => by
      rw [he] at hl
      exact hl.1
    have ha : Absorbs α a a := absorbs_self a hl.1 hv.1 (Counting.fits_mono (by omega) hfits)
    refine .pair ⟨ha, rfl, hloop⟩ (.inl ?_) ?_
    · exact Score.isOne_score_self hl.1 (Counting.fits_mono (by omega) hfits)
    · exact weave_self as hl.2 hv.2 (List.nodup_cons.mp hk).2 (Counting.fits_mono (by omega) hfits)
end

variable {merge : NodeMerger}

structure Lone (α : Type) [Grade α] (a n : Node) : Prop where
  idle : Idle n
  partnered : Partnered α n a
  isOne : Grade.isOne (Score.score false n a : α) = true
  size_le : n.size ≤ 2 * a.size

theorem Unmatched.lone {enclosing : Option Tag} {n a : Node} {rest : List Node} {count : Nat}
    (hno : Markdown.allowsBlocks enclosing = false) (ha : a.Literal) (hv : a.Varied)
    (hfits : Counting.Fits α (2 * a.size)) (h : Unmatched chain side enclosing a rest s n count t) :
    count = 1 ∧ Lone α a n := by
  have habsorbs : Absorbs α a a := absorbs_self a ha hv hfits
  have hself : Grade.isOne (Score.score false a a : α) = true :=
    Score.isOne_score_self ha (Counting.fits_mono (by omega) hfits)
  have hpos := a.size_pos
  cases h with
  | literal hblank => exact ⟨rfl, .literal hblank, ⟨habsorbs, rfl, nofun⟩, hself, by omega⟩
  | text _ _ =>
    refine ⟨rfl, .slot, ⟨absorbs_slot ha, rfl, nofun⟩, Counting.isOne Score.counts_one, ?_⟩
    change 1 ≤ _
    omega
  | markdown hblock _ => simp [hno] at hblock
  | @wrapped tag cs _ _ _ _ _ hwrap =>
    cases Returns.wrapElement hwrap with
    | mk _ _ _ _ _ =>
      rw [insertKey_of_references_nil _ _ _ (Literal.references _ ha)]
      refine ⟨rfl, .conditional, ⟨absorbs_conditional ha habsorbs, rfl, nofun⟩, ?_, ?_⟩
      · rwa [Score.score]
      · change (element tag cs).size + 1 ≤ _
        omega
  | content => exact ha.elim
  | slot => exact ha.elim
  | block => exact ha.elim

structure Shared (α : Type) [Grade α] (a b n : Node) : Prop where
  left : Partnered α n a
  right : Partnered α n b
  size_le : n.size ≤ 2 * (a.size + b.size)

def SharesAll (α : Type) [Grade α] [Counting α] (merge : NodeMerger) : Prop :=
  ∀ chain around a b s n t, a.Literal → a.Varied → b.Literal → b.Varied →
    Counting.Fits α (3 * (a.size + b.size)) → Returns (merge chain around a b) s n t → Shared α a b n

structure VariedPage (page : List Node) : Prop where
  literal : LiteralList page
  varied : VariedList page
  kinds : (page.map kind).Nodup

theorem VariedPage.tail {a : Node} {as : List Node} (h : VariedPage (a :: as)) : VariedPage as :=
  ⟨h.literal.2, h.varied.2, (List.nodup_cons.mp h.kinds).2⟩

theorem VariedPage.kind_not_mem {a : Node} {as : List Node} (h : VariedPage (a :: as)) :
    a.kind ∉ as.map kind :=
  (List.nodup_cons.mp h.kinds).1

structure VariedPages (α : Type) [Grade α] [Counting α] (as bs : List Node) : Prop where
  left : VariedPage as
  right : VariedPage bs
  fits : Counting.Fits α (3 * (sizeOfList as + sizeOfList bs))

namespace VariedPages

variable {a b : Node} {as bs : List Node}

omit [Positive α] [Ordered α] [Selective α]

theorem swap (h : VariedPages α as bs) : VariedPages α bs as :=
  ⟨h.right, h.left, Counting.fits_mono (by omega) h.fits⟩

theorem tail_left (h : VariedPages α (a :: as) bs) : VariedPages α as bs :=
  ⟨h.left.tail, h.right, Counting.fits_mono (by rw [sizeOfList]; omega) h.fits⟩

theorem tail_right (h : VariedPages α as (b :: bs)) : VariedPages α as bs :=
  h.swap.tail_left.swap

theorem fits_left (h : VariedPages α (a :: as) bs) : Counting.Fits α (2 * a.size) :=
  Counting.fits_mono (by rw [sizeOfList]; omega) h.fits

theorem fits_heads (h : VariedPages α (a :: as) (b :: bs)) : Counting.Fits α (3 * (a.size + b.size)) :=
  Counting.fits_mono (by rw [sizeOfList, sizeOfList]; omega) h.fits

end VariedPages

omit [Selective α] in
theorem kind_ne_of_not_bestMatch {a b : Node} {restA restB : List Node}
    (hpages : VariedPages α (a :: restA) (b :: restB))
    (h : Score.isBestMatch a b (Score.score false a b : α) restA restB = false) : a.kind ≠ b.kind := by
  intro he
  have hbest := isBestMatch_of_kind hpages.right.literal he (he ▸ hpages.left.kind_not_mem)
    hpages.right.kind_not_mem (Counting.fits_mono (by omega) hpages.fits_heads)
  rw [hbest] at h
  cases h

/-- Both pages are woven into their layout. Its nodes are of the kinds of the pages, so none of them competes with
a later pair. -/
structure Woven (α : Type) [Grade α] (as bs ns : List Node) : Prop where
  left : Weave α ns as
  right : Weave α ns bs
  kinds : ∀ n ∈ ns, n.kind ∈ as.map kind ∨ n.kind ∈ bs.map kind
  size_le : sizeOfList ns ≤ 2 * (sizeOfList as + sizeOfList bs)

namespace Woven

variable {a b n : Node} {as bs ns : List Node}

omit [Counting α] [Positive α] [Ordered α] [Selective α]

theorem swap (h : Woven α as bs ns) : Woven α bs as ns :=
  ⟨h.right, h.left, fun n hn => (h.kinds n hn).symm, by have hsize := h.size_le; omega⟩

theorem shared (h : Woven α as bs ns) (ha : VariedPage (a :: as)) (hb : VariedPage (b :: bs))
    (hn : Shared α a b n) : Woven α (a :: as) (b :: bs) (n :: ns) := by
  have hsame : a.kind = b.kind := hn.left.kind.symm.trans hn.right.kind
  have hrival : a.kind ∉ ns.map kind := fun hmem => by
    obtain ⟨m, hm, hk⟩ := List.mem_map.mp hmem
    rcases h.kinds m hm with hin | hin
    · exact ha.kind_not_mem (hk ▸ hin)
    · exact hb.kind_not_mem (hsame ▸ hk ▸ hin)
  refine ⟨.pair hn.left (.inr hrival) h.left, .pair hn.right (.inr (hsame ▸ hrival)) h.right, fun m hm => ?_, ?_⟩
  · rcases List.mem_cons.mp hm with rfl | hm
    · exact .inl (hn.left.kind ▸ List.mem_cons_self ..)
    · exact (h.kinds m hm).imp (List.mem_cons_of_mem _) (List.mem_cons_of_mem _)
  · have hhead := hn.size_le
    have hrest := h.size_le
    rw [sizeOfList, sizeOfList, sizeOfList]
    omega

theorem lone_left (h : Woven α as bs ns) (hn : Lone α a n) (hne : ∀ b ∈ bs.head?, a.kind ≠ b.kind) :
    Woven α (a :: as) bs (n :: ns) := by
  refine ⟨.pair hn.partnered (.inl hn.isOne) h.left, .skip hn.idle (fun b hb => ?_) h.right, fun m hm => ?_, ?_⟩
  · exact hn.partnered.kind ▸ hne b hb
  · rcases List.mem_cons.mp hm with rfl | hm
    · exact .inl (hn.partnered.kind ▸ List.mem_cons_self ..)
    · exact (h.kinds m hm).imp_left (List.mem_cons_of_mem _)
  · have hhead := hn.size_le
    have hrest := h.size_le
    rw [sizeOfList, sizeOfList]
    omega

theorem lone_right (h : Woven α as bs ns) (hn : Lone α b n) (hne : ∀ a ∈ as.head?, b.kind ≠ a.kind) :
    Woven α as (b :: bs) (n :: ns) :=
  (h.swap.lone_left hn hne).swap

end Woven

theorem Walk.woven (hall : SharesAll α merge) (hno : Unmarked around) {as bs ns : List Node}
    (hpages : VariedPages α as bs) (h : Walk α merge chain around as bs s ns t) : Woven α as bs ns := by
  induction h with
  | done => exact ⟨.nil, .nil, by simp, Nat.le_refl 0⟩
  | @both a b restA restB ns taken _ _ _ hf _ ih =>
    cases hf with
    | blocks h => exact (not_returns_mergeBlocks hno.left h).elim
    | runs _ h =>
      exact ((Returns.mergeRuns h).false_of_nodup (elementNames_nodup hpages.left.kinds)
        (elementNames_nodup hpages.right.kinds)).elim
    | pair _ _ h =>
      obtain ⟨u, -, hpair⟩ := Returns.mergePair h
      cases hpair with
      | absorbRight => exact hpages.left.literal.1.elim
      | absorbLeft => exact hpages.right.literal.1.elim
      | @merged _ _ n _ h =>
        have hn : Shared α a b n := hall _ _ _ _ _ _ _ hpages.left.literal.1 hpages.left.varied.1
          hpages.right.literal.1 hpages.right.varied.1 hpages.fits_heads h
        exact (ih hpages.tail_left.tail_right).shared hpages.left hpages.right hn
    | left _ _ hbest _ h =>
      have hne := kind_ne_of_not_bestMatch hpages hbest
      obtain ⟨rfl, hn⟩ := (Returns.unmatched h).lone (α := α) hno.left hpages.left.literal.1
        hpages.left.varied.1 hpages.fits_left
      apply (ih hpages.tail_left).lone_left hn
      simpa using hne
    | right _ _ hbest _ h =>
      have hne := kind_ne_of_not_bestMatch hpages hbest
      obtain ⟨rfl, hn⟩ := (Returns.unmatched h).lone (α := α) hno.right hpages.right.literal.1
        hpages.right.varied.1 hpages.swap.fits_left
      apply (ih hpages.tail_right).lone_right hn
      simpa using hne.symm
  | left h _ ih =>
    obtain ⟨rfl, hn⟩ := (Returns.unmatched h).lone (α := α) hno.left hpages.left.literal.1
      hpages.left.varied.1 hpages.fits_left
    exact (ih hpages.tail_left).lone_left hn (by simp)
  | right h _ ih =>
    obtain ⟨rfl, hn⟩ := (Returns.unmatched h).lone (α := α) hno.right hpages.right.literal.1
      hpages.right.varied.1 hpages.swap.fits_left
    exact (ih hpages.tail_right).lone_right hn (by simp)

theorem Returns.mergeSiblings_woven (hall : SharesAll α merge) (hno : Unmarked around)
    {as bs ns : List Node} (hpages : VariedPages α as bs)
    (h : Returns (Merge.mergeSiblings α merge chain around as bs) s ns t) : Woven α as bs ns :=
  (Returns.mergeSiblings_walk hno.inline h).woven hall hno hpages

theorem Step.shared (hall : SharesAll α merge) {a b n : Node} (ha : a.Literal) (hva : a.Varied)
    (hb : b.Literal) (hvb : b.Varied) (hfits : Counting.Fits α (3 * (a.size + b.size)))
    (h : Step α merge chain around s a b n t) : Shared α a b n := by
  have hpos := a.size_pos
  cases h with
  | texts _ _ =>
    refine ⟨⟨absorbs_slot ha, rfl, nofun⟩, ⟨absorbs_slot hb, rfl, nofun⟩, ?_⟩
    change 1 ≤ _
    omega
  | drawings hsvg hsvg' _ _ _ _ =>
    refine ⟨⟨absorbs_slot ha, congrArg Kind.element hsvg.symm, nofun⟩,
      ⟨absorbs_slot hb, congrArg Kind.element hsvg'.symm, nofun⟩, ?_⟩
    change 1 ≤ _
    omega
  | kept h _ =>
    cases h with
    | text hsame => exact ⟨⟨absorbs_text rfl, rfl, nofun⟩, ⟨absorbs_text hsame, rfl, nofun⟩, by omega⟩
    | literal hk => exact ⟨⟨absorbs_literal hk, rfl, nofun⟩, ⟨absorbs_literal hk, rfl, nofun⟩, by omega⟩
    | drawing hsvg hsvg' hx hy =>
      exact ⟨⟨absorbs_drawing hsvg hx hx, rfl, nofun⟩,
        ⟨absorbs_drawing hsvg hx hy, congrArg Kind.element (hsvg.trans hsvg'.symm), nofun⟩, by omega⟩
    | slot => exact ha.elim
    | content => exact ha.elim
  | @elements _ _ cs ds ns _ _ _ hname hsvg hattrs hns =>
    obtain ⟨hnames, hfixed, hcs⟩ := ha
    obtain ⟨hnames', hfixed', hds⟩ := hb
    obtain ⟨hflow, hinline, hdrawing⟩ := hva
    obtain ⟨hflow', -, hdrawing'⟩ := hvb
    -- the children vary unless they are drawn
    obtain ⟨hvcs, hkcs⟩ := hdrawing.resolve_left hsvg
    obtain ⟨hvds, hkds⟩ := hdrawing'.resolve_left (hname ▸ hsvg)
    obtain ⟨hrefound, hin, hin'⟩ := Returns.mergeAttributes_refinds hnames hfixed hnames' hfixed' hattrs
    have hattrsSize := Returns.mergeAttributes_size hattrs
    rw [Node.size, Node.size] at hfits
    have hno : Unmarked ⟨some _, some _⟩ := ⟨hflow, hflow', hinline⟩
    have hw : Woven α cs ds ns := Returns.mergeSiblings_woven hall hno
      ⟨⟨hcs, hvcs, hkcs⟩, ⟨hds, hvds, hkds⟩, Counting.fits_mono (by omega) hfits⟩ hns
    have hsize := hw.size_le
    refine ⟨⟨?_, rfl, nofun⟩, ⟨?_, congrArg Kind.element hname, nofun⟩, ?_⟩
    · exact absorbs_element hsvg ⟨hflow, hflow, hinline⟩ (fun c hc => (hrefound c hc).1) hin hw.left hcs hkcs
        (Counting.fits_mono (by omega) hfits)
    · exact absorbs_element hsvg ⟨hflow, hflow', hinline⟩ (fun c hc => (hrefound c hc).2) hin' hw.right hds
        hkds (Counting.fits_mono (by omega) hfits)
    · simp only [Node.size]
      omega
  | conditionalRight => exact hb.elim
  | absorbLeft => exact hb.elim
  | readLeft => exact hb.elim
  | _ => exact ha.elim

theorem mergeNode_shares (fuel : Nat) : SharesAll α (mergeNode α fuel) := by
  induction fuel with
  | zero =>
    intro chain around a b s n t _ _ _ _ _ h
    simp [mergeNode] at h
  | succ fuel ih =>
    intro chain around a b s n t ha hva hb hvb hfits h
    exact (Returns.mergeStep h).shared ih ha hva hb hvb hfits

/-- Merging two pages and then one of them again, in whatever state, gives the same layout. -/
theorem layout_reread {as bs layout page again : List Node} {u v : MergeState} (hpages : VariedPages α as bs)
    (h : Returns (Collection.mergeLayout α as bs) s layout t) (hpage : page = as ∨ page = bs)
    (hagain : Returns (Collection.mergeLayout α layout page) u again v) : again = layout := by
  obtain ⟨_, h, -⟩ := Collection.Returns.mergeLayout h
  obtain ⟨_, hagain, -⟩ := Collection.Returns.mergeLayout hagain
  have hw : Woven α as bs layout := Returns.mergeSiblings_woven (mergeNode_shares _) unmarked_root hpages h
  have hsize := hw.size_le
  rcases hpage with rfl | rfl
  · exact hw.left.reads_siblings unmarked_root hpages.left.literal hpages.left.kinds
      (Counting.fits_mono (by omega) hpages.fits) hagain
  · exact hw.right.reads_siblings unmarked_root hpages.right.literal hpages.right.kinds
      (Counting.fits_mono (by omega) hpages.fits) hagain

def mergeTwice (α : Type) [Grade α] (as bs page : List Node) : Merge (List Node × List Node) := do
  let layout ← Collection.mergeLayout α as bs
  let again ← Collection.mergeLayout α layout page
  return (layout, again)

theorem Returns.mergeTwice {α : Type} [Grade α] {as bs page layout again : List Node}
    (h : Returns (mergeTwice α as bs page) s (layout, again) t) :
    ∃ u, Returns (Collection.mergeLayout α as bs) s layout u ∧
      Returns (Collection.mergeLayout α layout page) u again t := by
  simp only [Merge.mergeTwice, returns_bind, returns_pure] at h
  obtain ⟨_, u, hfirst, _, _, hagain, he, rfl⟩ := h
  cases he
  exact ⟨u, hfirst, hagain⟩

theorem layout_reread_swapped : ∃ layout again t u,
    Returns (Collection.mergeLayout Float
      [.element ⟨"x", []⟩ [.text "1"], .element ⟨"y", [.fixed "id" "a"]⟩ []]
      [.element ⟨"y", [.fixed "id" "b"]⟩ [], .element ⟨"x", []⟩ [.text "2"]]) {} layout t ∧
    Returns (Collection.mergeLayout Float layout
      [.element ⟨"y", [.fixed "id" "b"]⟩ [], .element ⟨"x", []⟩ [.text "2"]]) t again u ∧
    slots layout = ["b", "x", "a"] ∧ again = layout := by
  obtain ⟨⟨layout, again⟩, u, h, hslots⟩ := exists_returns (s := {}) (y := ["b", "x", "a"])
    (f := fun p => slots p.1)
    (m := mergeTwice Float [.element ⟨"x", []⟩ [.text "1"], .element ⟨"y", [.fixed "id" "a"]⟩ []]
      [.element ⟨"y", [.fixed "id" "b"]⟩ [], .element ⟨"x", []⟩ [.text "2"]]
      [.element ⟨"y", [.fixed "id" "b"]⟩ [], .element ⟨"x", []⟩ [.text "2"]])
    (by decide +kernel)
  obtain ⟨t, hfirst, hagain⟩ := Returns.mergeTwice h
  have x (v : String) : (Node.element ⟨"x", []⟩ [.text v]).Literal ∧
      (Node.element ⟨"x", []⟩ [.text v]).Varied :=
    ⟨⟨List.nodup_nil, by simp, trivial, trivial⟩,
      ⟨show Markdown.flowParents.contains "x" = false by decide,
        show Markdown.inlineParents.contains "x" = false by decide,
        .inr ⟨⟨trivial, trivial⟩, List.nodup_singleton _⟩⟩⟩
  have y (v : String) : (Node.element ⟨"y", [.fixed "id" v]⟩ []).Literal ∧
      (Node.element ⟨"y", [.fixed "id" v]⟩ []).Varied :=
    ⟨⟨List.nodup_singleton _, by simp [Attribute.isFixed], trivial⟩,
      ⟨show Markdown.flowParents.contains "y" = false by decide,
        show Markdown.inlineParents.contains "y" = false by decide, .inr ⟨trivial, List.nodup_nil⟩⟩⟩
  refine ⟨layout, again, t, u, hfirst, hagain, hslots, layout_reread ⟨?_, ?_, ?_⟩ hfirst (.inr rfl) hagain⟩
  · exact ⟨⟨(x _).1, (y _).1, trivial⟩, ⟨(x _).2, (y _).2, trivial⟩, by simp [kind, core]⟩
  · exact ⟨⟨(y _).1, (x _).1, trivial⟩, ⟨(y _).2, (x _).2, trivial⟩, by simp [kind, core]⟩
  · change 3 * _ < 2 ^ 53
    decide +kernel

def Unsettled (as bs page : List Node) : Prop :=
  ∃ layout again t, Returns (mergeTwice Float as bs page) {} (layout, again) t ∧ again ≠ layout

theorem Unsettled.of_slots {as bs page : List Node}
    (h : (((mergeTwice Float as bs page).run {}).1.toOption.map fun (layout, again) =>
      decide (again.length = layout.length ∧ slots again = slots layout)) = some false) :
    Unsettled as bs page := by
  obtain ⟨⟨layout, again⟩, t, hreturns, hdiffer⟩ := exists_returns h
  refine ⟨layout, again, t, hreturns, fun he => of_decide_eq_false hdiffer ?_⟩
  rw [he]
  exact ⟨rfl, rfl⟩

/-- Two texts, two comments or two elements of one name among siblings; blocks and inline content that
may be kept as Markdown. -/
theorem layouts_unsettled :
    Unsettled [.text "b", .text "c"] [.text "c"] [.text "c"] ∧
    Unsettled [.literal .comment "c"] [.literal .comment "ab", .literal .comment "b"]
      [.literal .comment "ab", .literal .comment "b"] ∧
    Unsettled [.element ⟨"i", []⟩ [], .element ⟨"i", []⟩ []] [.element ⟨"i", []⟩ [.text "x"]]
      [.element ⟨"i", []⟩ [], .element ⟨"i", []⟩ []] ∧
    Unsettled [.element ⟨"div", []⟩ [.text "a", .element ⟨"p", []⟩ []]]
      [.element ⟨"div", []⟩ [.element ⟨"p", []⟩ [], .element ⟨"img", []⟩ []]]
      [.element ⟨"div", []⟩ [.element ⟨"p", []⟩ [], .element ⟨"img", []⟩ []]] ∧
    Unsettled
      [.element ⟨"p", []⟩ [.element ⟨"em", []⟩ [.element ⟨"strong", []⟩ [.text "a"]], .text " x"]]
      [.element ⟨"p", []⟩
        [.element ⟨"em", []⟩ [.element ⟨"strong", []⟩ [.text "a"], .text " "], .text "x"]]
      [.element ⟨"p", []⟩ [.element ⟨"em", []⟩ [.element ⟨"strong", []⟩ [.text "a"]], .text " x"]] :=
  ⟨.of_slots (by decide +kernel), .of_slots (by decide +kernel), .of_slots (by decide +kernel),
    .of_slots (by decide +kernel), .of_slots (by decide +kernel)⟩

end Stencil.Merge
