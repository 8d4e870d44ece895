import Stencil.Proofs.Collection.Fold
import Stencil.Proofs.Merge.Slots
import Stencil.Proofs.Node.Scoped

/-!
How references lie in the layouts of a fold. They follow the blocks around them everywhere but in the
templates of loops that hold blocks themselves: there they are only known to lie inside the loop.
-/

namespace Stencil

namespace Merge

open Node

variable {α : Type} [Grade α] {merge : NodeMerger} {chain : Scope}

inductive Tied : BlockProperty
  | conditional {r : Reference} {template : Node} : (∀ q ∈ ownReferencesOfList [template], q.Own r) →
    (∀ b ∈ ownBlocksOfList [template], Tied b.1 b.2.1 b.2.2) → Tied .conditional r template
  | loop {r : Reference} {template : Node} : template.Within r → Tied .loop r template

theorem tied_conditional {r : Reference} {template : Node} :
    Tied .conditional r template ↔ Placed Tied r [template] := by
  constructor
  · rintro (⟨hown, hblocks⟩ | _)
    exact ⟨hown, hblocks⟩
  · rintro ⟨hown, hblocks⟩
    exact .conditional hown hblocks

theorem tied_loop {r : Reference} {template : Node} :
    Tied .loop r template ↔ template.Within r := by
  constructor
  · rintro (_ | h)
    exact h
  · exact .loop

theorem Tied.inside {kind : BlockKind} {r : Reference} {template : Node} (h : Tied kind r template) :
    ∀ q ∈ template.references, q.Inside r := by
  induction h with
  | loop h => exact h.inside
  | conditional hown _ ih =>
    intro q hq
    have hq : q ∈ referencesOfList [_] := List.mem_append_left _ hq
    rcases own_of_mem_referencesOfList _ hq with hq | ⟨b, hb, hq⟩
    · exact (hown q hq).direct.inside
    · obtain ⟨k, -, hk⟩ := hown _ (own_of_mem_ownBlocksOfList _ hb)
      have hin := ih b hb q hq
      rw [hk] at hin
      exact hin.widen (List.prefix_append _ _)

theorem Tied.insertKey {key : String} {kind : BlockKind} {r : Reference} {template : Node}
    (h : Tied kind r template) : ∀ {more : Scope}, r = chain ++ more →
      Tied kind (chain ++ [key] ++ more) (template.insertKey chain.length key) := by
  induction h with
  | loop h =>
    rintro more rfl
    exact .loop (h.insertKey key)
  | @conditional r template hown _ ih =>
    rintro more rfl
    refine .conditional (fun q hq => ?_) fun b hb => ?_
    · have hq : q ∈ ownReferencesOfList (insertKeys chain.length key [template]) := hq
      rw [ownReferencesOfList_insertKeys, List.mem_map] at hq
      obtain ⟨p, hp, rfl⟩ := hq
      exact (hown p hp).insertKey key
    · have hb : b ∈ ownBlocksOfList (insertKeys chain.length key [template]) := hb
      rw [ownBlocksOfList_insertKeys, List.mem_map] at hb
      obtain ⟨c, hc, rfl⟩ := hb
      obtain ⟨k, -, hk⟩ := hown _ (own_of_mem_ownBlocksOfList _ hc)
      have hpath : c.2.1 = chain ++ (more ++ [k]) := by rw [hk, List.append_assoc]
      have htied := ih c hc hpath
      have hmoved : Reference.insertKey chain.length key c.2.1 = chain ++ [key] ++ (more ++ [k]) := by
        rw [hpath, Reference.insertKey_append]
      rw [hmoved]
      exact htied

theorem tied_closed (hm : KeepsAll merge) (hall : SettlesAll merge Tied) : Closed merge Tied where
  inside h := h.inside
  loop h := .loop h
  wrapped {chain n key} hp := by
    have hchain : chain = chain ++ [] := (List.append_nil chain).symm
    have h : Tied .conditional (chain ++ [key] ++ []) (n.insertKey chain.length key) :=
      (tied_conditional.mpr hp).insertKey hchain
    rwa [List.append_nil] at h
  merged {kind r template b around n s t} ht hb h := by
    cases kind with
    | conditional => exact tied_conditional.mpr (hall _ _ _ _ _ _ _ hb h (tied_conditional.mp ht)).1
    | loop =>
      exact .loop ((hm _ _ _ _ _ _ _ h).within (tied_loop.mp ht) (.of_references_nil hb))

theorem Returns.lists_tied {as bs ns : List Node} {around : Around} {s t : MergeState}
    (hbs : referencesOfList bs = []) (ht : Placed Tied chain as)
    (h : Returns (lists α chain around as bs) s ns t) : Placed Tied chain ns :=
  (Returns.lists_settles (fun fuel hall => tied_closed (mergeNode_keeps fuel) hall) hbs h ht).1

theorem placed_cons {Q : BlockProperty} {n : Node} {ns : List Node} :
    Placed Q chain (n :: ns) ↔ Placed Q chain [n] ∧ Placed Q chain ns := by
  rw [← List.singleton_append, Placed.append_iff]

mutual
theorem scoped_iff_of_tied {chain : Scope} : (n : Node) → Placed Tied chain [n] →
    (n.Scoped chain ↔ ∀ l ∈ n.outerLoops, l.2.hasBlock = true → l.2.Scoped l.1)
  | .literal .., _ => by simp [Scoped, outerLoops]
  | .content, _ => by simp [Scoped, outerLoops]
  | .foreign, _ => by simp [Scoped, outerLoops]
  | .slot _ r, h => by simpa [Scoped, outerLoops] using h.of_slot.direct
  | .element tag cs, h => by
    obtain ⟨hattrs, hcs⟩ := Placed.append_iff.mp (Placed.element_iff.mp h)
    have hdirect : ∀ r ∈ tag.attrs.filterMap Attribute.reference?, r.Direct chain := fun r hr =>
      (hattrs.own r (by rwa [(own_attributeSlots _).1])).direct
    rw [Scoped, and_iff_right hdirect]
    exact scopedList_iff_of_tied cs hcs
  | .block .conditional r template, h => by
    obtain ⟨hown, htied⟩ := h.of_block
    rw [Scoped, and_iff_right hown.direct]
    exact scoped_iff_of_tied template (tied_conditional.mp htied)
  | .block .loop r template, h => by
    obtain ⟨hown, htied⟩ := h.of_block
    rw [Scoped, and_iff_right hown.direct, outerLoops, List.forall_mem_singleton]
    refine ⟨fun h _ => h, fun h => ?_⟩
    cases hb : template.hasBlock with
    | true => exact h hb
    | false => exact scoped_of_hasBlock template hb ((tied_loop.mp htied).flat hb)

theorem scopedList_iff_of_tied {chain : Scope} : (ns : List Node) → Placed Tied chain ns →
    (ScopedList chain ns ↔ ∀ l ∈ outerLoopsOfList ns, l.2.hasBlock = true → l.2.Scoped l.1)
  | [], _ => by simp [ScopedList, outerLoopsOfList]
  | n :: ns, h => by
    obtain ⟨hn, hns⟩ := placed_cons.mp h
    rw [ScopedList, scoped_iff_of_tied n hn, scopedList_iff_of_tied ns hns, outerLoopsOfList]
    exact List.forall_mem_append.symm
end

mutual
theorem inside_of_outerLoops {chain : Scope} : (n : Node) → Placed Tied chain [n] →
    ∀ l ∈ n.outerLoops, ∀ q ∈ l.2.references, q.Inside l.1
  | .literal .., _ => by simp [outerLoops]
  | .content, _ => by simp [outerLoops]
  | .foreign, _ => by simp [outerLoops]
  | .slot .., _ => by simp [outerLoops]
  | .element _ cs, h =>
    inside_of_outerLoopsOfList cs (Placed.append_iff.mp (Placed.element_iff.mp h)).2
  | .block .conditional _ template, h =>
    inside_of_outerLoops template (tied_conditional.mp h.of_block.2)
  | .block .loop r template, h => by
    rw [outerLoops, List.forall_mem_singleton]
    exact h.of_block.2.inside

theorem inside_of_outerLoopsOfList {chain : Scope} : (ns : List Node) → Placed Tied chain ns →
    ∀ l ∈ outerLoopsOfList ns, ∀ q ∈ l.2.references, q.Inside l.1
  | [], _ => by simp [outerLoopsOfList]
  | n :: ns, h => by
    obtain ⟨hn, hns⟩ := placed_cons.mp h
    exact List.forall_mem_append.mpr ⟨inside_of_outerLoops n hn, inside_of_outerLoopsOfList ns hns⟩
end

/-- In a layout that pages were folded into, each reference is that of the nearest block around it and one
key more, with one exception: the templates of loops that hold further blocks. -/
theorem layout_scoped_iff {first layout : List Node} {pages : List (List Node)} {s t : MergeState}
    (hfirst : referencesOfList first = []) (hpages : ∀ page ∈ pages, referencesOfList page = [])
    (h : Returns (pages.foldlM (Collection.mergeLayout α) first) s layout t) :
    (ScopedList [] layout ↔
      ∀ l ∈ outerLoopsOfList layout, l.2.hasBlock = true → l.2.Scoped l.1) ∧
    ∀ l ∈ outerLoopsOfList layout, ∀ q ∈ l.2.references, q.Inside l.1 := by
  have hkept : Collection.KeptBy α (fun _ => Placed Tied []) pages := fun hl hm _ _ hmerge =>
    Returns.lists_tied (hpages _ hm) hl hmerge
  have htied := hkept.layouts (.of_references_nil hfirst) h
  exact ⟨scopedList_iff_of_tied layout htied, inside_of_outerLoopsOfList layout htied⟩

theorem layout_scoped_list : ∃ layout t, Returns
    ([[.element ⟨"e", []⟩ [.text "3"]]].foldlM (Collection.mergeLayout Rat)
      [.element ⟨"e", []⟩ [.text "1"], .element ⟨"e", []⟩ [.text "2"]]) {} layout t ∧
    (outerLoopsOfList layout).length = 1 ∧
    (ScopedList [] layout ↔ ∀ l ∈ outerLoopsOfList layout, l.2.hasBlock = true → l.2.Scoped l.1) ∧
    ∀ l ∈ outerLoopsOfList layout, ∀ q ∈ l.2.references, q.Inside l.1 := by
  obtain ⟨layout, t, h, hloops⟩ := exists_returns (s := {}) (y := 1)
    (f := fun layout => (outerLoopsOfList layout).length)
    (m := [[.element ⟨"e", []⟩ [.text "3"]]].foldlM (Collection.mergeLayout Rat)
      [.element ⟨"e", []⟩ [.text "1"], .element ⟨"e", []⟩ [.text "2"]])
    (by decide +kernel)
  exact ⟨layout, t, h, hloops, layout_scoped_iff rfl (by simp [referencesOfList, references]) h⟩

/-- In the template of a loop a conditional is opened whose template holds a slot of the loop. -/
theorem layout_not_scoped : ∃ layout t, Returns
    ([[.element ⟨"e", [.fixed "class" "aaa"]⟩ [.element ⟨"x", []⟩ [.text "2"]],
        .element ⟨"e", [.fixed "class" "yyy"]⟩ []],
      [.element ⟨"e", [.fixed "class" "aaa"]⟩ [.element ⟨"x", []⟩ [.text "3"]]]].foldlM
      (Collection.mergeLayout Float)
      [.element ⟨"e", [.fixed "class" "aaa"]⟩ [.element ⟨"x", []⟩ [.text "1"]],
        .element ⟨"e", [.fixed "class" "zzz"]⟩ [.element ⟨"x", []⟩ [.text "5"]]]) {} layout t ∧
    ¬ ScopedList [] layout := by
  obtain ⟨layout, t, h, hno⟩ := exists_returns (s := {}) (y := false)
    (f := fun layout => decide (ScopedList [] layout))
    (m := [[.element ⟨"e", [.fixed "class" "aaa"]⟩ [.element ⟨"x", []⟩ [.text "2"]],
        .element ⟨"e", [.fixed "class" "yyy"]⟩ []],
      [.element ⟨"e", [.fixed "class" "aaa"]⟩ [.element ⟨"x", []⟩ [.text "3"]]]].foldlM
      (Collection.mergeLayout Float)
      [.element ⟨"e", [.fixed "class" "aaa"]⟩ [.element ⟨"x", []⟩ [.text "1"]],
        .element ⟨"e", [.fixed "class" "zzz"]⟩ [.element ⟨"x", []⟩ [.text "5"]]])
    (by decide +kernel)
  exact ⟨layout, t, h, of_decide_eq_false hno⟩

end Merge

end Stencil
