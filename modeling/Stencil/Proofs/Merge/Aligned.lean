import Stencil.Proofs.Above
import Stencil.Proofs.Merge.Cases
import Stencil.Proofs.Merge.Step
import Stencil.Proofs.Node.Rows

namespace Stencil.Merge

open Node Grade

inductive Aligned : List Node → List Node → List Node → Prop
  | nil : Aligned [] [] []
  | both {s t : Tag} {attrs : List Attribute} {cs ds ms as bs ns : List Node} : s.name = t.name → Aligned cs ds ms →
    Aligned as bs ns →
    Aligned (.element s cs :: as) (.element t ds :: bs) (.element ⟨s.name, attrs⟩ ms :: ns)
  | left {s : Tag} {cs as bs ns : List Node} {r : Reference} : s.name ∉ elementNames bs → Aligned as bs ns →
    Aligned (.element s cs :: as) bs (.block .conditional r (.element s cs) :: ns)
  | right {t : Tag} {ds as bs ns : List Node} {r : Reference} : t.name ∉ elementNames as → Aligned as bs ns →
    Aligned as (.element t ds :: bs) (.block .conditional r (.element t ds) :: ns)
  | texts {v w : String} {n : Node} {as bs ns : List Node} : n.core.isElement = false → Aligned as bs ns →
    Aligned (.text v :: as) (.text w :: bs) (n :: ns)
  | leftText {v : String} {n : Node} {as bs ns : List Node} : n.core.isElement = false → Aligned as bs ns →
    Aligned (.text v :: as) bs (n :: ns)
  | rightText {w : String} {n : Node} {as bs ns : List Node} : n.core.isElement = false → Aligned as bs ns →
    Aligned as (.text w :: bs) (n :: ns)

structure Parallel (α : Type) [Grade α] [Counting α] (as bs : List Node) : Prop where
  left : Row as
  right : Row bs
  order : SameOrder (elementNames as) (elementNames bs)
  below : InStepAll as bs
  fits : Counting.Fits α (sizeOfList as + sizeOfList bs)

namespace Parallel

variable {α : Type} [Grade α] [Counting α] {a b : Node} {as bs : List Node}

theorem below_iff (h : Parallel α as bs) : ∀ a ∈ as, ∀ b ∈ bs, InStep a b :=
  inStepAll_iff.mp h.below

theorem fits_heads (h : Parallel α (a :: as) (b :: bs)) : Counting.Fits α (a.size + b.size) := by
  have hfits := h.fits
  simp only [sizeOfList] at hfits
  exact Counting.fits_mono (by omega) hfits

theorem skipLeft (h : Parallel α (a :: as) bs)
    (hnew : ∀ s cs, a = .element s cs → s.name ∉ elementNames bs) : Parallel α as bs where
  left := h.left.tail
  right := h.right
  order := by
    have horder := h.order
    rcases h.left.cases List.mem_cons_self with ⟨v, rfl⟩ | ⟨s, cs, rfl⟩
    · exact horder
    · exact horder.skip (hnew s cs rfl)
  below := h.below.2
  fits := Counting.fits_mono (by rw [sizeOfList]; omega) h.fits

theorem skipRight (h : Parallel α as (b :: bs))
    (hnew : ∀ s cs, b = .element s cs → s.name ∉ elementNames as) : Parallel α as bs where
  left := h.left
  right := h.right.tail
  order := by
    have horder := h.order.symm
    rcases h.right.cases List.mem_cons_self with ⟨v, rfl⟩ | ⟨s, cs, rfl⟩
    · exact horder.symm
    · exact (horder.skip (hnew s cs rfl)).symm
  below := inStepAll_iff.mpr fun a ha c hc => h.below_iff a ha c (List.mem_cons_of_mem _ hc)
  fits := Counting.fits_mono (by rw [sizeOfList]; omega) h.fits

theorem skipBoth (h : Parallel α (a :: as) (b :: bs)) (hkind : a.kind = b.kind) : Parallel α as bs where
  left := h.left.tail
  right := h.right.tail
  order := by
    have horder := h.order
    have hfreshA := h.left.kind_not_mem
    have hfreshB := h.right.kind_not_mem
    rcases h.left.cases List.mem_cons_self with ⟨v, rfl⟩ | ⟨s, cs, rfl⟩
    · rcases h.right.cases List.mem_cons_self with ⟨w, rfl⟩ | ⟨t, ds, rfl⟩
      · exact horder
      · cases hkind
    · rcases h.right.cases List.mem_cons_self with ⟨w, rfl⟩ | ⟨t, ds, rfl⟩
      · cases hkind
      · rw [h.left.tail.kind_mem_iff] at hfreshA
        rw [h.right.tail.kind_mem_iff] at hfreshB
        have hname : s.name = t.name := Kind.element.inj hkind
        change SameOrder (s.name :: elementNames as) (t.name :: elementNames bs) at horder
        rw [← hname] at hfreshB horder
        exact horder.tails hfreshA hfreshB
  below := inStepAll_iff.mpr fun c hc d hd =>
    h.below_iff c (List.mem_cons_of_mem _ hc) d (List.mem_cons_of_mem _ hd)
  fits := Counting.fits_mono (by rw [sizeOfList, sizeOfList]; omega) h.fits

variable [Positive α] [Ordered α]

theorem leftWaits_iff (h : Parallel α (a :: as) (b :: bs)) (hkind : a.kind ≠ b.kind) :
    Score.hasBetterPartner true a (Score.score false a b : α) bs = true ↔ a.kind ∈ bs.map kind := by
  rw [Score.score_of_kind_ne h.right.literal.1 a hkind]
  apply Score.hasBetterPartner_iff h.left.literal.1 (literalList_iff.mp h.right.literal.2)
  intro c hc
  have hcsize := size_le_sizeOfList hc
  exact Counting.fits_mono (by rw [sizeOfList, sizeOfList]; omega) h.fits

theorem rightWaits_iff (h : Parallel α (a :: as) (b :: bs)) (hkind : a.kind ≠ b.kind) :
    Score.hasBetterPartner false b (Score.score false a b : α) as = true ↔ b.kind ∈ as.map kind := by
  rw [Score.score_of_kind_ne h.right.literal.1 a hkind]
  apply Score.hasBetterPartner_iff h.right.literal.1 (literalList_iff.mp h.left.literal.2)
  intro c hc
  have hcsize := size_le_sizeOfList hc
  exact Counting.fits_mono (by rw [sizeOfList, sizeOfList]; omega) h.fits

omit [Positive α] [Ordered α] in
theorem not_crossed (h : Parallel α (a :: as) (b :: bs)) (hkind : a.kind ≠ b.kind) (ha : a.kind ∈ bs.map kind) :
    b.kind ∉ as.map kind := by
  intro hb
  rcases h.left.cases List.mem_cons_self with ⟨v, rfl⟩ | ⟨s, cs, rfl⟩
  · cases h.left.distinct with
    | text => cases hb
    | elements helements => cases helements _ List.mem_cons_self
  · rcases h.right.cases List.mem_cons_self with ⟨w, rfl⟩ | ⟨t, ds, rfl⟩
    · cases h.right.distinct with
      | text => cases ha
      | elements helements => cases helements _ List.mem_cons_self
    -- two elements that wait for each other have their names in different orders
    · rw [h.right.tail.kind_mem_iff] at ha
      rw [h.left.tail.kind_mem_iff] at hb
      exact SameOrder.not_crossed (fun he => hkind (congrArg Kind.element he)) ha hb h.order

theorem kind_not_mem_right (h : Parallel α (a :: as) (b :: bs)) (hkind : a.kind ≠ b.kind)
    (hextra : leftIsExtra α a b (Score.score false a b) as bs = true) : a.kind ∉ (b :: bs).map kind := by
  rw [List.map_cons, List.mem_cons, not_or]
  refine ⟨hkind, fun hwaits => ?_⟩
  have hleft := (h.leftWaits_iff hkind).mpr hwaits
  have hright : Score.hasBetterPartner false b (Score.score false a b : α) as = false := by
    rw [← Bool.not_eq_true, h.rightWaits_iff hkind]
    exact h.not_crossed hkind hwaits
  rw [leftIsExtra, hleft, hright] at hextra
  cases hextra

theorem kind_not_mem_left (h : Parallel α (a :: as) (b :: bs)) (hkind : a.kind ≠ b.kind)
    (hextra : leftIsExtra α a b (Score.score false a b) as bs = false) : b.kind ∉ (a :: as).map kind := by
  rw [List.map_cons, List.mem_cons, not_or]
  refine ⟨fun he => hkind he.symm, fun hwaits => ?_⟩
  have hright := (h.rightWaits_iff hkind).mpr hwaits
  have hleft : Score.hasBetterPartner true a (Score.score false a b : α) bs = false := by
    rw [← Bool.not_eq_true, h.leftWaits_iff hkind]
    exact fun ha => h.not_crossed hkind ha hwaits
  rw [leftIsExtra, hleft, hright] at hextra
  cases hextra

theorem isBestMatch_of_kind (h : Parallel α (a :: as) (b :: bs)) (hkind : a.kind = b.kind) :
    Score.isBestMatch a b (Score.score false a b : α) as bs = true := by
  have hpos : zero < (Score.score false a b : α) :=
    (Score.lt_score_iff h.right.literal.1 h.fits_heads).mpr hkind
  -- what follows is of other kinds and scores nothing
  apply Score.isBestMatch_of_zero hpos (Ordered.not_lt_zero hpos)
  · intro c hc
    have hne : a.kind ≠ c.kind := fun he => h.right.kind_not_mem (hkind ▸ he ▸ List.mem_map_of_mem hc)
    exact Score.score_of_kind_ne (literalList_iff.mp h.right.literal.2 c hc) a hne
  · intro c hc
    have hne : c.kind ≠ b.kind := fun he => h.left.kind_not_mem (hkind ▸ he ▸ List.mem_map_of_mem hc)
    exact Score.score_of_kind_ne h.right.literal.1 c hne

theorem kind_eq_of_partners (h : Parallel α (a :: as) (b :: bs))
    (hmatch : isOne (Score.score false a b : α) = true ∨
      Score.isBestMatch a b (Score.score false a b : α) as bs = true) : a.kind = b.kind := by
  by_contra hkind
  rw [Score.score_of_kind_ne h.right.literal.1 a hkind, Ordered.isOne_zero] at hmatch
  have hirrefl : decide ((zero : α) < zero) = false := decide_eq_false (Positive.lt_irrefl zero)
  simp [Score.isBestMatch, hirrefl] at hmatch

theorem kind_ne_of_not_bestMatch (h : Parallel α (a :: as) (b :: bs))
    (hbest : Score.isBestMatch a b (Score.score false a b : α) as bs = false) : a.kind ≠ b.kind := by
  intro he
  rw [h.isBestMatch_of_kind he] at hbest
  cases hbest

end Parallel

inductive Meets : Node → Node → Node → Prop
  | elements {s t : Tag} {attrs : List Attribute} {cs ds ms : List Node} : s.name = t.name → Aligned cs ds ms →
    Meets (.element s cs) (.element t ds) (.element ⟨s.name, attrs⟩ ms)
  | texts {v w : String} {n : Node} : n.core.isElement = false → Meets (.text v) (.text w) n

theorem Meets.cons {a b n : Node} {as bs ns : List Node} (h : Meets a b n) (hrest : Aligned as bs ns) :
    Aligned (a :: as) (b :: bs) (n :: ns) := by
  cases h with
  | elements hname hbelow => exact .both hname hbelow hrest
  | texts htext => exact .texts htext hrest

inductive SetsAside : Node → Node → Prop
  | element {s : Tag} {cs : List Node} {r : Reference} :
    SetsAside (.element s cs) (.block .conditional r (.element s cs))
  | text {v : String} {n : Node} : n.core.isElement = false → SetsAside (.text v) n

theorem SetsAside.cons_left {a n : Node} {as bs ns : List Node} (h : SetsAside a n)
    (hnew : ∀ s cs, a = .element s cs → s.name ∉ elementNames bs) (hrest : Aligned as bs ns) :
    Aligned (a :: as) bs (n :: ns) := by
  cases h with
  | element => exact .left (hnew _ _ rfl) hrest
  | text htext => exact .leftText htext hrest

theorem SetsAside.cons_right {b n : Node} {as bs ns : List Node} (h : SetsAside b n)
    (hnew : ∀ s cs, b = .element s cs → s.name ∉ elementNames as) (hrest : Aligned as bs ns) :
    Aligned as (b :: bs) (n :: ns) := by
  cases h with
  | element => exact .right (hnew _ _ rfl) hrest
  | text htext => exact .rightText htext hrest

section Steps

variable {α : Type} [Grade α] {merge : NodeMerger} {chain : Scope} {around : Around} {s t : MergeState}

theorem Unmatched.setsAside {side : Side} {enclosing : Option Tag} {n a : Node} {rest : List Node} {count : Nat}
    (hno : Markdown.allowsBlocks enclosing = false) (ha : Row (a :: rest))
    (h : Unmatched chain side enclosing a rest s n count t) : count = 1 ∧ SetsAside a n := by
  cases h with
  | @literal k v =>
    rcases ha.cases List.mem_cons_self with ⟨w, he⟩ | ⟨_, _, he⟩
    · cases he
      exact ⟨rfl, .text rfl⟩
    · cases he
  | text => exact ⟨rfl, .text rfl⟩
  | markdown hblock _ => simp [hno] at hblock
  | wrapped _ hwrap =>
    cases Returns.wrapElement hwrap with
    | mk =>
      rw [insertKey_of_references_nil _ _ _ (Literal.references _ ha.literal.1)]
      exact ⟨rfl, .element⟩
  | content => exact ha.literal.1.elim
  | slot => exact ha.literal.1.elim
  | block => exact ha.literal.1.elim

variable [Counting α]

def MeetsAll (α : Type) [Grade α] [Counting α] (merge : NodeMerger) : Prop :=
  ∀ chain around a b s n t, Row [a] → Row [b] → InStep a b → Counting.Fits α (a.size + b.size) →
    Returns (merge chain around a b) s n t → Meets a b n

variable [Positive α] [Ordered α] [Selective α]

theorem Walk.aligned (hall : MeetsAll α merge) (hno : Unmarked around) {as bs ns : List Node}
    (hrows : Parallel α as bs) (h : Walk α merge chain around as bs s ns t) : Aligned as bs ns := by
  -- a node is set aside only if the rest of the other row has no partner for it, so the rows stay parallel
  induction h with
  | done => exact .nil
  | @both a b restA restB ns taken _ _ _ hfront _ ih =>
    cases hfront with
    | blocks h => exact (not_returns_mergeBlocks hno.left h).elim
    | runs _ h =>
      exact ((Returns.mergeRuns h).false_of_nodup hrows.left.names_nodup hrows.right.names_nodup).elim
    | pair _ hmatch h =>
      have hkind := hrows.kind_eq_of_partners hmatch
      obtain ⟨u, -, hpair⟩ := Returns.mergePair h
      cases hpair with
      | absorbRight => exact hrows.left.literal.1.elim
      | absorbLeft => exact hrows.right.literal.1.elim
      | merged h =>
        have hstep := hrows.below_iff a List.mem_cons_self b List.mem_cons_self
        exact (hall _ _ _ _ _ _ _ hrows.left.head hrows.right.head hstep hrows.fits_heads h).cons
          (ih (hrows.skipBoth hkind))
    | left _ _ hbest hextra h =>
      obtain ⟨rfl, haside⟩ := (Returns.unmatched h).setsAside hno.left hrows.left
      have hnew := hrows.kind_not_mem_right (hrows.kind_ne_of_not_bestMatch hbest) hextra
      have hname : ∀ s cs, a = .element s cs → s.name ∉ elementNames (b :: restB) := by
        rintro s cs rfl
        rwa [hrows.right.kind_mem_iff] at hnew
      exact haside.cons_left hname (ih (hrows.skipLeft hname))
    | right _ _ hbest hextra h =>
      obtain ⟨rfl, haside⟩ := (Returns.unmatched h).setsAside hno.right hrows.right
      have hnew := hrows.kind_not_mem_left (hrows.kind_ne_of_not_bestMatch hbest) hextra
      have hname : ∀ t ds, b = .element t ds → t.name ∉ elementNames (a :: restA) := by
        rintro t ds rfl
        rwa [hrows.left.kind_mem_iff] at hnew
      exact haside.cons_right hname (ih (hrows.skipRight hname))
  | left h _ ih =>
    obtain ⟨rfl, haside⟩ := (Returns.unmatched h).setsAside hno.left hrows.left
    exact haside.cons_left (fun _ _ _ => List.not_mem_nil) (ih (hrows.skipLeft fun _ _ _ => List.not_mem_nil))
  | right h _ ih =>
    obtain ⟨rfl, haside⟩ := (Returns.unmatched h).setsAside hno.right hrows.right
    exact haside.cons_right (fun _ _ _ => List.not_mem_nil) (ih (hrows.skipRight fun _ _ _ => List.not_mem_nil))

theorem Returns.mergeSiblings_aligned (hall : MeetsAll α merge) (hno : Unmarked around) {as bs ns : List Node}
    (hrows : Parallel α as bs) (h : Returns (Merge.mergeSiblings α merge chain around as bs) s ns t) :
    Aligned as bs ns :=
  (Returns.mergeSiblings_walk hno.inline h).aligned hall hno hrows

theorem Step.meets (hall : MeetsAll α merge) {a b n : Node} (ha : Row [a]) (hb : Row [b]) (hstep : InStep a b)
    (hfits : Counting.Fits α (a.size + b.size)) (h : Step α merge chain around s a b n t) : Meets a b n := by
  cases h with
  | elements hname hsvg _ hns =>
    obtain ⟨hflow, hinline, -, hdistinct, hapart⟩ := ha.apart.1
    obtain ⟨hflow', -, -, hdistinct', hapart'⟩ := hb.apart.1
    obtain ⟨horder, hbelow⟩ := hstep hname
    simp only [Node.size] at hfits
    have hrows : Parallel α _ _ :=
      ⟨⟨ha.literal.1.2.2, hapart, hdistinct⟩, ⟨hb.literal.1.2.2, hapart', hdistinct'⟩, horder, hbelow,
        Counting.fits_mono (by omega) hfits⟩
    have hno : Unmarked ⟨some _, some _⟩ := ⟨hflow, hflow', hinline⟩
    exact .elements hname (Returns.mergeSiblings_aligned hall hno hrows hns)
  | drawings hsvg => exact (ha.apart.1.2.2.1 hsvg).elim
  | texts => exact .texts rfl
  | kept h _ =>
    cases h with
    | text => exact .texts rfl
    | literal hk =>
      rcases ha.cases List.mem_cons_self with ⟨v, he⟩ | ⟨_, _, he⟩
      · cases he
        exact (hk rfl).elim
      · cases he
    | slot => exact ha.literal.1.elim
    | content => exact ha.literal.1.elim
    | drawing hsvg => exact (ha.apart.1.2.2.1 hsvg).elim
  | conditionalRight => exact hb.literal.1.elim
  | absorbLeft => exact hb.literal.1.elim
  | readLeft => exact hb.literal.1.elim
  | _ => exact ha.literal.1.elim

theorem mergeNode_meets (fuel : Nat) : MeetsAll α (mergeNode α fuel) := by
  induction fuel with
  | zero =>
    intro chain around a b s n t _ _ _ _ h
    simp [mergeNode] at h
  | succ fuel ih =>
    intro chain around a b s n t ha hb hstep hfits h
    exact (Returns.mergeStep h).meets ih ha hb hstep hfits

end Steps

def outline (ns : List Node) : List String :=
  ns.filterMap fun n => n.core.tag?.map Tag.name

def standsFor (name : String) (n : Node) : Bool :=
  n.core.tag?.map Tag.name = some name

section Outline

variable {name x : String} {n : Node} {ns : List Node}

theorem outline_cons_of_element (h : n.core.tag?.map Tag.name = some name) : outline (n :: ns) = name :: outline ns :=
  List.filterMap_cons_some h

theorem tag?_of_not_element (h : n.core.isElement = false) : n.core.tag? = none := by
  cases hn : n.core with
  | element => simp [hn, isElement] at h
  | _ => rfl

theorem outline_cons_of_not_element (h : n.core.isElement = false) : outline (n :: ns) = outline ns :=
  List.filterMap_cons_none (congrArg (Option.map Tag.name) (tag?_of_not_element h))

theorem mem_outline : name ∈ outline ns ↔ ∃ n ∈ ns, standsFor name n = true := by
  simp [outline, standsFor]

theorem filter_standsFor_of_fresh (h : n.core.tag?.map Tag.name = some name) (hfresh : name ∉ outline ns) :
    (n :: ns).filter (standsFor name) = [n] := by
  have hrest : ns.filter (standsFor name) = [] := by
    rw [List.filter_eq_nil_iff]
    exact fun m hm hstands => hfresh (mem_outline.mpr ⟨m, hm, hstands⟩)
  rw [List.filter_cons_of_pos (by simpa [standsFor] using h), hrest]

theorem filter_standsFor_of_ne (h : n.core.tag?.map Tag.name = some x) (hne : x ≠ name) :
    (n :: ns).filter (standsFor name) = ns.filter (standsFor name) :=
  List.filter_cons_of_neg (by simp [standsFor, h, hne])

theorem filter_standsFor_of_not_element (h : n.core.isElement = false) :
    (n :: ns).filter (standsFor name) = ns.filter (standsFor name) :=
  List.filter_cons_of_neg (by simp [standsFor, tag?_of_not_element h])

end Outline

structure Exactly (as bs ns : List Node) : Prop where
  shared (name : String) : name ∈ elementNames as → name ∈ elementNames bs →
    ∃ attrs ms, ns.filter (standsFor name) = [.element ⟨name, attrs⟩ ms]
  onlyLeft (s : Tag) (cs : List Node) : .element s cs ∈ as → s.name ∉ elementNames bs →
    ∃ r, ns.filter (standsFor s.name) = [.block .conditional r (.element s cs)]
  onlyRight (t : Tag) (ds : List Node) : .element t ds ∈ bs → t.name ∉ elementNames as →
    ∃ r, ns.filter (standsFor t.name) = [.block .conditional r (.element t ds)]
  leftOrder : ((outline ns).filter fun name => name ∈ elementNames as) = elementNames as
  rightOrder : ((outline ns).filter fun name => name ∈ elementNames bs) = elementNames bs
  outline_subset : ∀ name ∈ outline ns, name ∈ elementNames as ∨ name ∈ elementNames bs

namespace Aligned

variable {as bs ns : List Node}

theorem symm (h : Aligned as bs ns) : Aligned bs as ns := by
  induction h with
  | nil => exact .nil
  | both hname _ _ ihbelow ih =>
    rw [hname]
    exact .both hname.symm ihbelow ih
  | left hnew _ ih => exact .right hnew ih
  | right hnew _ ih => exact .left hnew ih
  | texts htext _ ih => exact .texts htext ih
  | leftText htext _ ih => exact .rightText htext ih
  | rightText htext _ ih => exact .leftText htext ih

theorem outline_subset (h : Aligned as bs ns) :
    ∀ name ∈ outline ns, name ∈ elementNames as ∨ name ∈ elementNames bs := by
  induction h with
  | nil => exact nofun
  | both _ _ _ _ ih =>
    rw [outline_cons_of_element rfl, List.forall_mem_cons]
    exact ⟨.inl List.mem_cons_self, fun x hx => (ih x hx).imp (List.mem_cons_of_mem _) (List.mem_cons_of_mem _)⟩
  | left _ _ ih =>
    rw [outline_cons_of_element rfl, List.forall_mem_cons]
    exact ⟨.inl List.mem_cons_self, fun x hx => (ih x hx).imp_left (List.mem_cons_of_mem _)⟩
  | right _ _ ih =>
    rw [outline_cons_of_element rfl, List.forall_mem_cons]
    exact ⟨.inr List.mem_cons_self, fun x hx => (ih x hx).imp_right (List.mem_cons_of_mem _)⟩
  | texts htext _ ih | leftText htext _ ih | rightText htext _ ih =>
    rw [outline_cons_of_not_element htext]
    exact ih

theorem leftOrder (h : Aligned as bs ns) (hleft : (elementNames as).Nodup) (hright : (elementNames bs).Nodup) :
    ((outline ns).filter fun name => name ∈ elementNames as) = elementNames as := by
  have hkeeps {x : String} {xs ys : List String} (hx : x ∉ ys) :
      ((x :: ys).filter fun y => y ∈ x :: xs) = x :: ys.filter fun y => y ∈ xs := by
    rw [List.filter_cons_of_pos (by simp)]
    refine congrArg _ (List.filter_congr fun y hy => ?_)
    have hne : y ≠ x := fun he => hx (he ▸ hy)
    simp [hne]
  induction h with
  | nil => rfl
  | @both s t _ _ _ _ _ _ _ hname _ hrest _ ih =>
    obtain ⟨hs, hleft⟩ := nodup_elementNames_cons.mp hleft
    obtain ⟨ht, hright⟩ := nodup_elementNames_cons.mp hright
    have hfresh : s.name ∉ outline _ := fun hmem => (hrest.outline_subset _ hmem).elim hs (hname ▸ ht)
    rw [outline_cons_of_element rfl]
    exact (hkeeps hfresh).trans (congrArg _ (ih hleft hright))
  | @left s _ _ _ _ _ hnew hrest ih =>
    obtain ⟨hs, hleft⟩ := nodup_elementNames_cons.mp hleft
    have hfresh : s.name ∉ outline _ := fun hmem => (hrest.outline_subset _ hmem).elim hs hnew
    rw [outline_cons_of_element rfl]
    exact (hkeeps hfresh).trans (congrArg _ (ih hleft hright))
  | right hnew _ ih =>
    rw [outline_cons_of_element rfl, List.filter_cons_of_neg (by simpa using hnew)]
    exact ih hleft (nodup_elementNames_cons.mp hright).2
  | texts htext _ ih | leftText htext _ ih | rightText htext _ ih =>
    rw [outline_cons_of_not_element htext]
    exact ih hleft hright

theorem onlyLeft (h : Aligned as bs ns) (hleft : (elementNames as).Nodup) {s : Tag} {cs : List Node}
    (ha : .element s cs ∈ as) (hnew : s.name ∉ elementNames bs) :
    ∃ r, ns.filter (standsFor s.name) = [.block .conditional r (.element s cs)] := by
  induction h with
  | nil => cases ha
  | both hname _ _ _ ih =>
    obtain ⟨hs, hleft⟩ := nodup_elementNames_cons.mp hleft
    obtain ⟨hne, hnew⟩ := not_or.mp (List.mem_cons.not.mp hnew)
    rcases List.mem_cons.mp ha with he | ha
    · cases he
      exact (hne hname).elim
    · rw [filter_standsFor_of_ne rfl (ne_of_mem_elementNames hs ha)]
      exact ih hleft ha hnew
  | left _ hrest ih =>
    obtain ⟨hs, hleft⟩ := nodup_elementNames_cons.mp hleft
    rcases List.mem_cons.mp ha with he | ha
    · cases he
      have hfresh : s.name ∉ outline _ := fun hmem => (hrest.outline_subset _ hmem).elim hs hnew
      exact ⟨_, filter_standsFor_of_fresh rfl hfresh⟩
    · rw [filter_standsFor_of_ne rfl (ne_of_mem_elementNames hs ha)]
      exact ih hleft ha hnew
  | right _ _ ih =>
    obtain ⟨hne, hnew⟩ := not_or.mp (List.mem_cons.not.mp hnew)
    rw [filter_standsFor_of_ne rfl (Ne.symm hne)]
    exact ih hleft ha hnew
  | texts htext _ ih | leftText htext _ ih =>
    rw [filter_standsFor_of_not_element htext]
    exact ih hleft ((List.mem_cons.mp ha).resolve_left nofun) hnew
  | rightText htext _ ih =>
    rw [filter_standsFor_of_not_element htext]
    exact ih hleft ha hnew

theorem shared (h : Aligned as bs ns) (hleft : (elementNames as).Nodup) (hright : (elementNames bs).Nodup)
    {s t : Tag} {cs ds : List Node} (ha : .element s cs ∈ as) (hb : .element t ds ∈ bs) (hname : s.name = t.name) :
    ∃ attrs ms, ns.filter (standsFor s.name) = [.element ⟨s.name, attrs⟩ ms] ∧ Aligned cs ds ms := by
  -- the names of either row are distinct, so the first element of the name is the one that is meant
  induction h with
  | nil => cases ha
  | both hname' hbelow hrest _ ih =>
    obtain ⟨hs, hleft⟩ := nodup_elementNames_cons.mp hleft
    obtain ⟨ht, hright⟩ := nodup_elementNames_cons.mp hright
    rcases List.mem_cons.mp ha with he | ha <;> rcases List.mem_cons.mp hb with he' | hb
    · cases he
      cases he'
      have hfresh : s.name ∉ outline _ := fun hmem => (hrest.outline_subset _ hmem).elim hs (hname ▸ ht)
      exact ⟨_, _, filter_standsFor_of_fresh rfl hfresh, hbelow⟩
    · cases he
      exact (ne_of_mem_elementNames ht hb (hname'.symm.trans hname)).elim
    · cases he'
      exact (ne_of_mem_elementNames hs ha (hname'.trans hname.symm)).elim
    · rw [filter_standsFor_of_ne rfl (ne_of_mem_elementNames hs ha)]
      exact ih hleft hright ha hb
  | left hnew _ ih =>
    obtain ⟨hs, hleft⟩ := nodup_elementNames_cons.mp hleft
    rcases List.mem_cons.mp ha with he | ha
    · cases he
      exact (ne_of_mem_elementNames hnew hb hname).elim
    · rw [filter_standsFor_of_ne rfl (ne_of_mem_elementNames hs ha)]
      exact ih hleft hright ha hb
  | right hnew _ ih =>
    obtain ⟨ht, hright⟩ := nodup_elementNames_cons.mp hright
    rcases List.mem_cons.mp hb with he | hb
    · cases he
      exact (ne_of_mem_elementNames hnew ha hname.symm).elim
    · rw [filter_standsFor_of_ne rfl (hname ▸ ne_of_mem_elementNames ht hb)]
      exact ih hleft hright ha hb
  | texts htext _ ih =>
    rw [filter_standsFor_of_not_element htext]
    exact ih hleft hright ((List.mem_cons.mp ha).resolve_left nofun) ((List.mem_cons.mp hb).resolve_left nofun)
  | leftText htext _ ih =>
    rw [filter_standsFor_of_not_element htext]
    exact ih hleft hright ((List.mem_cons.mp ha).resolve_left nofun) hb
  | rightText htext _ ih =>
    rw [filter_standsFor_of_not_element htext]
    exact ih hleft hright ha ((List.mem_cons.mp hb).resolve_left nofun)

theorem exactly (h : Aligned as bs ns) (hleft : (elementNames as).Nodup) (hright : (elementNames bs).Nodup) :
    Exactly as bs ns where
  shared name hnameA hnameB := by
    obtain ⟨s, cs, ha, rfl⟩ := mem_elementNames_iff.mp hnameA
    obtain ⟨t, ds, hb, hname⟩ := mem_elementNames_iff.mp hnameB
    obtain ⟨attrs, ms, hfilter, -⟩ := h.shared hleft hright ha hb hname.symm
    exact ⟨attrs, ms, hfilter⟩
  onlyLeft _ _ := h.onlyLeft hleft
  onlyRight _ _ := h.symm.onlyLeft hright
  leftOrder := h.leftOrder hleft hright
  rightOrder := h.symm.leftOrder hright hleft
  outline_subset := h.outline_subset

end Aligned

inductive Reached (as bs ns : List Node) : List Node → List Node → List Node → Prop
  | here : Reached as bs ns as bs ns
  | deeper {s t u : Tag} {as' bs' ns' cs ds ms : List Node} : Reached as bs ns as' bs' ns' →
    .element s cs ∈ as' → .element t ds ∈ bs' → .element u ms ∈ ns' → s.name = t.name → s.name = u.name →
    Reached as bs ns cs ds ms

theorem Reached.aligned {as bs ns as' bs' ns' : List Node} (hreached : Reached as bs ns as' bs' ns')
    (hleft : Row as) (hright : Row bs) (h : Aligned as bs ns) : Row as' ∧ Row bs' ∧ Aligned as' bs' ns' := by
  induction hreached with
  | here => exact ⟨hleft, hright, h⟩
  | @deeper s t u _ _ _ _ _ ms _ ha hb hn hname hname' ih =>
    obtain ⟨hleft, hright, h⟩ := ih
    obtain ⟨attrs, ms', hfilter, hbelow⟩ := h.shared hleft.names_nodup hright.names_nodup ha hb hname
    have hmem : Node.element u ms ∈ List.filter (standsFor s.name) _ :=
      List.mem_filter.mpr ⟨hn, by simp [standsFor, core, tag?, hname']⟩
    -- the layout has no other element of the name
    rw [hfilter, List.mem_singleton] at hmem
    cases hmem
    exact ⟨hleft.below ha, hright.below hb, hbelow⟩

/-- Every level of a merge of rows in step is aligned exactly. -/
theorem lists_exactly {α : Type} [Grade α] [Counting α] [Positive α] [Ordered α] [Selective α] {s t : MergeState}
    {as bs ns as' bs' ns' : List Node} (hrows : Parallel α as bs) (h : Returns (lists α [] {} as bs) s ns t)
    (hreached : Reached as bs ns as' bs' ns') : Exactly as' bs' ns' := by
  have haligned := Returns.mergeSiblings_aligned (mergeNode_meets _) unmarked_root hrows h
  obtain ⟨hleft, hright, hbelow⟩ := hreached.aligned hrows.left hrows.right haligned
  exact hbelow.exactly hleft.names_nodup hright.names_nodup

theorem lists_exactly_terms :
    let term (name : String) : Node := .element ⟨name, []⟩ []
    let as : List Node := [.element ⟨"i", []⟩ [.text "new"], term "a", .element ⟨"dl", []⟩ [term "b", term "u"]]
    let bs : List Node := [.element ⟨"a", []⟩ [.text "next"], term "hr", .element ⟨"dl", []⟩ [term "u", term "q"]]
    ∃ ns t attrs ms, Returns (lists Float [] {} as bs) {} ns t ∧ outline ns = ["i", "a", "hr", "dl"] ∧
      Exactly as bs ns ∧ .element ⟨"dl", attrs⟩ ms ∈ ns ∧ Exactly [term "b", term "u"] [term "u", term "q"] ms := by
  intro term as bs
  have hempty : Distinct [] := .elements nofun List.nodup_nil
  have hterms : Distinct [term "b", term "u"] ∧ Distinct [term "u", term "q"] :=
    ⟨.elements (by simp [term, isElement]) (by simp [term, elementNames, tag?]),
      .elements (by simp [term, isElement]) (by simp [term, elementNames, tag?])⟩
  have hrows : Parallel Float as bs :=
    { left :=
        ⟨by simp [as, term, LiteralList, Literal],
          by simp [as, term, ApartList, Apart, Markdown.flowParents, Markdown.inlineParents, Markdown.headings,
            hempty, Distinct.text, hterms.1],
          .elements (by simp [as, term, isElement]) (by simp [as, term, elementNames, tag?])⟩
      right :=
        ⟨by simp [bs, term, LiteralList, Literal],
          by simp [bs, term, ApartList, Apart, Markdown.flowParents, Markdown.inlineParents, Markdown.headings,
            hempty, Distinct.text, hterms.2],
          .elements (by simp [bs, term, isElement]) (by simp [bs, term, elementNames, tag?])⟩
      order := show _ = _ by decide
      below := by
        have hother {x y : String} {cs ds : List Node} (hne : x ≠ y) :
            InStep (.element ⟨x, []⟩ cs) (.element ⟨y, []⟩ ds) := fun he => (hne he).elim
        have hterms : InStepAll [term "b", term "u"] [term "u", term "q"] := by
          simp only [inStepAll_iff, List.forall_mem_cons, List.not_mem_nil, false_imp_iff, implies_true, and_true]
          exact ⟨⟨hother (by decide), hother (by decide)⟩, fun _ => ⟨rfl, trivial⟩, hother (by decide)⟩
        simp only [as, bs, inStepAll_iff, List.forall_mem_cons, List.not_mem_nil, false_imp_iff, implies_true, and_true]
        exact ⟨⟨hother (by decide), hother (by decide), hother (by decide)⟩,
          ⟨fun _ => ⟨rfl, trivial⟩, hother (by decide), hother (by decide)⟩,
          ⟨hother (by decide), hother (by decide), fun _ => ⟨show _ = _ by decide, hterms⟩⟩⟩
      fits := by
        change sizeOfList as + sizeOfList bs < 2 ^ 53
        decide +kernel }
  obtain ⟨ns, t, h, houtline⟩ := exists_returns (s := {}) (f := outline) (y := ["i", "a", "hr", "dl"])
    (m := lists Float [] {} as bs) (by decide +kernel)
  have hexactly := lists_exactly hrows h .here
  obtain ⟨attrs, ms, hfilter⟩ := hexactly.shared "dl" (by decide) (by decide)
  have hmem : Node.element ⟨"dl", attrs⟩ ms ∈ ns := by
    refine List.mem_of_mem_filter (p := standsFor "dl") ?_
    rw [hfilter]
    exact List.mem_singleton_self _
  have hbelow : Exactly [term "b", term "u"] [term "u", term "q"] ms :=
    by
    refine lists_exactly hrows h (.deeper (s := ⟨"dl", []⟩) (t := ⟨"dl", []⟩) .here ?_ ?_ hmem rfl rfl)
    · simp [as]
    · simp [bs]
  exact ⟨ns, t, attrs, ms, h, houtline, hexactly, hmem, hbelow⟩

end Stencil.Merge
