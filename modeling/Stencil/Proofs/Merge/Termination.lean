import Stencil.Proofs.Merge.Nested
import Stencil.Proofs.Merge.Refines
import Stencil.Proofs.Merge.Room

/-!
Merges come to an end. A merge of what stands inside of two nodes leaves less room: fewer elements, or as many
and fewer loops, or as many of both and fewer conditionals. Templates that grow while they are fitted keep
the room that they have, and a walk over siblings leaves fewer of them at every step.
-/

namespace Stencil

namespace Merge

open Node

variable {α : Type} [Grade α] {merge : NodeMerger} {chain : Scope} {around : Around} {side : Side}
  {s t : MergeState} {width elements elements' loops loops' conditionals conditionals' : Nat}

def rank (width elements loops conditionals : Nat) : Nat :=
  elements * (width * (width + 1) + width + 1) + loops * (width + 1) + conditionals + 1

theorem rank_conditional (h : 0 < conditionals) :
    rank width elements loops (conditionals - 1) < rank width elements loops conditionals := by
  unfold rank
  omega

theorem rank_loop (h : 0 < loops) :
    rank width elements (loops - 1) width < rank width elements loops conditionals := by
  obtain ⟨k, rfl⟩ : ∃ k, loops = k + 1 := ⟨loops - 1, by omega⟩
  unfold rank
  rw [Nat.add_sub_cancel, Nat.add_one_mul]
  omega

theorem rank_element (h : 0 < elements) :
    rank width (elements - 1) width width < rank width elements loops conditionals := by
  obtain ⟨k, rfl⟩ : ∃ k, elements = k + 1 := ⟨elements - 1, by omega⟩
  unfold rank
  rw [Nat.add_sub_cancel, Nat.add_one_mul]
  omega

structure Halts (merge : NodeMerger) (width elements loops conditionals : Nat) : Prop where
  finishes : ∀ {chain around a b s}, a.Bounded width elements loops conditionals →
    b.Bounded width elements loops conditionals → Finishes (merge chain around a b) s

theorem Halts.mono (h : Halts merge width elements loops conditionals) (he : elements' ≤ elements)
    (hl : loops' ≤ loops) (hc : conditionals' ≤ conditionals) :
    Halts merge width elements' loops' conditionals' :=
  ⟨fun ha hb => h.finishes (ha.mono he hl hc) (hb.mono he hl hc)⟩

theorem Halts.uncut (h : Halts merge width elements loops conditionals) {a b : Node}
    (ha : a.Bounded width elements loops conditionals) (hb : b.Bounded width elements loops conditionals) :
    FailsIn Uncut (merge chain around a b) s :=
  finishes_iff.mp (h.finishes ha hb)

theorem uncut_extract (hm : StaysBounded width merge)
    (hh : Halts merge width elements loops conditionals) {c : Scope} {template : Node}
    {sources : List Node} (ht : template.Bounded width elements loops conditionals)
    (hs : ∀ e ∈ sources, e.Bounded width elements loops conditionals) :
    FailsIn Uncut (extract Node.same (fun t e => merge c around t e) template sources) s :=
  failsIn_extract (Node.Bounded width elements loops conditionals)
    (fun ht hmem => hh.uncut ht (hs _ hmem)) (fun ht hmem h => hm.merged ht (hs _ hmem) h) ht

theorem uncut_buildLoop (hm : StaysBounded width merge) (hh : Halts merge width elements 0 0)
    {as bs : List Node} (has : ∀ a ∈ as, a.Bounded width elements 0 0)
    (hbs : ∀ b ∈ bs, b.Bounded width elements 0 0) :
    FailsIn Uncut (buildLoop merge chain around as bs) s := by
  apply failsIn_buildLoop
  rintro key _ u rfl
  obtain ⟨hsources, hhead⟩ := bounded_sources has hbs chain.length key
  exact uncut_extract hm hh hhead hsources

theorem uncut_mergeFronts {a b : Node} {restA restB : List Node} (hm : StaysBounded width merge)
    (hh : Halts merge width elements width width)
    (has : ∀ n ∈ a :: restA, n.Bounded width elements width width)
    (hbs : ∀ n ∈ b :: restB, n.Bounded width elements width width) :
    FailsIn Uncut (mergeFronts α merge chain around a b restA restB) s := by
  have ha := has a (List.mem_cons_self ..)
  have hb := hbs b (List.mem_cons_self ..)
  have hinner : Halts merge width elements (width - 1) width :=
    hh.mono (Nat.le_refl _) (Nat.sub_le _ _) (Nat.le_refl _)
  apply failsIn_mergeFronts
  · intro u
    apply failsIn_mergeRuns
    intro _ _ _ v
    have hloop : Halts merge width elements 0 0 := hh.mono (Nat.le_refl _) (Nat.zero_le _) (Nat.zero_le _)
    exact uncut_buildLoop hm hloop (bounded_run has) (bounded_run hbs)
  · intro _ u
    apply failsIn_mergePair
    · rintro r t v rfl _
      exact failsIn_absorb (uncut_extract hm hinner ha.2 (bounded_run hbs))
    · rintro r t v rfl _
      exact failsIn_absorb (uncut_extract hm hinner hb.2 (bounded_run has))
    · intro v
      exact hh.uncut ha hb

theorem finishes_mergeSiblings (hm : StaysBounded width merge)
    (hh : Halts merge width elements width width) {as bs : List Node}
    (has : BoundedAll width elements as) (hbs : BoundedAll width elements bs) :
    Finishes (mergeSiblings α merge chain around as bs) s := by
  rw [boundedAll_iff] at has hbs
  refine finishes_iff.mpr (failsIn_mergeSiblings fun a restA b restB u ha hb => ?_)
  exact uncut_mergeFronts hm hh (fun n hn => has n (ha.subset hn)) fun n hn => hbs n (hb.subset hn)

theorem finishes_mergeStep (hm : StaysBounded width merge) {fuel : Nat}
    (hh : ∀ {elements loops conditionals}, rank width elements loops conditionals ≤ fuel →
      Halts merge width elements loops conditionals)
    (hrank : rank width elements loops conditionals ≤ fuel + 1) {a b : Node}
    (ha : a.Bounded width elements loops conditionals)
    (hb : b.Bounded width elements loops conditionals) :
    Finishes (mergeStep α merge chain around a b) s := by
  have deeper {e l c : Nat} (h : rank width e l c < rank width elements loops conditionals) :
      Halts merge width e l c := hh (by omega)
  have uncut (f : Failure) (h : f ≠ .outOfFuel) {β : Type} {u : MergeState} : FailsIn Uncut (throw f : Merge β) u :=
    failsIn_throw.mpr h
  have hmismatch (a b : Node) {u : MergeState} : FailsIn Uncut (mismatch a b) u := by
    simp [mismatch, Node.errsIn_describe, uncut]
  rw [finishes_iff]
  unfold mergeStep
  split
  · have hinner := deeper (rank_conditional ha.1)
    simp [hinner.uncut ha.2 hb.2]
  · next hother =>
    have hinner := deeper (rank_conditional ha.1)
    have hb : b.Bounded width elements loops (conditionals - 1) := hb.of_not_conditional hother
    exact failsIn_mergeConditional (fun _ => hinner.uncut ha.2 hb) fun _ => hinner.uncut hb ha.2
  · next hother =>
    have hinner := deeper (rank_conditional hb.1)
    have ha : a.Bounded width elements loops (conditionals - 1) := ha.of_not_conditional hother
    exact failsIn_mergeConditional (fun _ => hinner.uncut hb.2 ha) fun _ => hinner.uncut ha hb.2
  · have hinner := deeper (rank_loop ha.1)
    simp [hinner.uncut ha.2 hb.2]
  · have hinner := deeper (rank_loop ha.1)
    refine failsIn_absorb (uncut_extract hm hinner ha.2 fun e he => ?_)
    rw [List.mem_singleton.mp he]
    exact hb.of_isElement rfl
  · have hinner := deeper (rank_loop hb.1)
    refine failsIn_absorb (uncut_extract hm hinner hb.2 fun e he => ?_)
    rw [List.mem_singleton.mp he]
    exact ha.of_isElement rfl
  · simp
  · simp
  · next tag cs tag' ds =>
    have hinner := deeper (rank_element ha.1)
    have hchildren (u : MergeState) :
        FailsIn Uncut (mergeSiblings α merge chain ⟨some tag, some tag'⟩ cs ds) u :=
      finishes_iff.mp (finishes_mergeSiblings hm hinner ha.2 hb.2)
    simp [mergeElements, failsIn_mergeDrawings, failsIn_mergeAttributes, hchildren, uncut]
  · exact failsIn_mergeTexts _ _
  -- no merge takes place inside of the others
  all_goals simp [hmismatch, uncut]

theorem halts_mergeNode (hw : 0 < width) (fuel : Nat) (h : rank width elements loops conditionals ≤ fuel) :
    Halts (mergeNode α fuel) width elements loops conditionals := by
  induction fuel generalizing elements loops conditionals with
  | zero =>
    unfold rank at h
    omega
  | succ fuel ih =>
    constructor
    intro chain around a b s ha hb
    exact finishes_mergeStep (mergeNode_bounded hw fuel) ih h ha hb

theorem rank_le_nesting (as bs : List Node) :
    let blocks := max 1 (max (blockDepthOfList as) (blockDepthOfList bs))
    rank blocks (max (elementDepthOfList as) (elementDepthOfList bs)) blocks blocks ≤ nesting as bs := by
  dsimp only [rank, nesting]
  generalize max (elementDepthOfList as) (elementDepthOfList bs) = depth
  generalize max 1 (max (blockDepthOfList as) (blockDepthOfList bs)) = blocks
  calc
    _ = (depth + 1) * (blocks * (blocks + 1) + blocks + 1) := by
      rw [Nat.add_one_mul]
      omega
    _ ≤ (depth + 1) * (2 * ((blocks + 1) * blocks + blocks) + 2) + 2 := by
      rw [Nat.mul_comm (blocks + 1) blocks]
      refine Nat.le_add_right_of_le (Nat.mul_le_mul_left _ ?_)
      omega

theorem finishes_nodes (chain : Scope) (around : Around) (a b : Node) (s : MergeState) :
    Finishes (nodes α chain around a b) s := by
  let width := max 1 (max (blockDepthOfList [a]) (blockDepthOfList [b]))
  have hw : 0 < width := by omega
  have ha : BoundedAll width (max (elementDepthOfList [a]) (elementDepthOfList [b])) [a] :=
    boundedAll_of_depth [a] (by omega) (by omega)
  have hb : BoundedAll width (max (elementDepthOfList [a]) (elementDepthOfList [b])) [b] :=
    boundedAll_of_depth [b] (by omega) (by omega)
  exact (halts_mergeNode hw _ (rank_le_nesting [a] [b])).finishes ha.1 hb.1

theorem finishes_lists (chain : Scope) (around : Around) (as bs : List Node) (s : MergeState) :
    Finishes (lists α chain around as bs) s := by
  let width := max 1 (max (blockDepthOfList as) (blockDepthOfList bs))
  have hw : 0 < width := by omega
  have has : BoundedAll width (max (elementDepthOfList as) (elementDepthOfList bs)) as :=
    boundedAll_of_depth as (by omega) (by omega)
  have hbs : BoundedAll width (max (elementDepthOfList as) (elementDepthOfList bs)) bs :=
    boundedAll_of_depth bs (by omega) (by omega)
  exact finishes_mergeSiblings (mergeNode_bounded hw _) (halts_mergeNode hw _ (rank_le_nesting as bs)) has hbs

end Merge

open Merge Node

/-- A merge of two lists of trees is never cut short: it comes to an end with a layout or with a failure, and
a larger bound on how deep merges nest changes nothing. No path of the layout has more elements than one of the
two trees. -/
theorem merge_terminates (α : Type) [Grade α] (chain : Scope) (around : Around) (as bs : List Node)
    (s : MergeState) :
    ((lists α chain around as bs).run s).1 ≠ .error .outOfFuel ∧
      (∀ more, (mergeSiblings α (mergeNode α (nesting as bs + more)) chain around as bs).run s =
        (lists α chain around as bs).run s) ∧
      ∀ ns t, Returns (lists α chain around as bs) s ns t →
        elementDepthOfList ns ≤ max (elementDepthOfList as) (elementDepthOfList bs) := by
  let width := max 1 (max (blockDepthOfList as) (blockDepthOfList bs))
  have hw : 0 < width := by omega
  have has : BoundedAll width (max (elementDepthOfList as) (elementDepthOfList bs)) as :=
    boundedAll_of_depth as (by omega) (by omega)
  have hbs : BoundedAll width (max (elementDepthOfList as) (elementDepthOfList bs)) bs :=
    boundedAll_of_depth bs (by omega) (by omega)
  have hm : StaysBounded width (mergeNode α (nesting as bs)) := mergeNode_bounded hw _
  have hfinishes : Finishes (lists α chain around as bs) s := finishes_lists chain around as bs s
  refine ⟨hfinishes, fun more => ?_, fun ns t h => ?_⟩
  · exact (refines_mergeSiblings (refines_mergeNode _ more) as bs).run hfinishes
  · exact (Returns.mergeSiblings_bounded hw hm has hbs h).elementDepth_le

theorem merge_terminates_items :
    ∃ ns t, Returns (lists Rat [] {} [.element ⟨"ul", []⟩ [.element ⟨"li", []⟩ [.text "a"]]]
        [.element ⟨"ul", []⟩ [.element ⟨"li", []⟩ [.text "b"], .element ⟨"li", []⟩ [.text "c"]]]) {} ns t ∧
      blockDepthOfList ns = 1 ∧ elementDepthOfList ns ≤ 2 := by
  obtain ⟨ns, t, h, hblocks⟩ := exists_returns (f := blockDepthOfList) (y := 1)
    (m := lists Rat [] {} [.element ⟨"ul", []⟩ [.element ⟨"li", []⟩ [.text "a"]]]
      [.element ⟨"ul", []⟩ [.element ⟨"li", []⟩ [.text "b"], .element ⟨"li", []⟩ [.text "c"]]]) (s := {})
    (by decide +kernel)
  exact ⟨ns, t, h, hblocks, (merge_terminates Rat [] {} _ _ {}).2.2 ns t h⟩

end Stencil
