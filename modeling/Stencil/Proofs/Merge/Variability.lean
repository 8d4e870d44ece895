import Mathlib
import Stencil.Proofs.Merge.Cases
import Stencil.Proofs.Merge.Identity
import Stencil.Proofs.Merge.Step
import Stencil.Proofs.UnitScore

/-!
When two literal nodes that score 1 are merged without a slot. The score ignores the order of classes and of
attributes, the markup of a drawing and the comparison of two runs of elements do not.
-/

namespace Stencil.Merge

open Node Grade Counting

variable {chain : Scope} {around : Around} {s t : MergeState}

theorem references_ne_of_inlined {as bs ns : List Node} (h : Inlined chain as bs s ns t) :
    referencesOfList ns ≠ [] := by
  cases h <;> simp [referencesOfList, references]

theorem references_ne_of_blocks {as bs : List Node} {taken : Taken} (h : Blocks chain as bs s taken t) :
    taken.node.references ≠ [] := by
  cases h <;> simp [references]

theorem singleSlot?_of_literals {kind : SlotKind} {ns : List Node} (h : LiteralList ns) :
    singleSlot? kind ns = none := by
  unfold singleSlot?
  split
  · next k r hns =>
    have hmem : Node.slot k r ∈ ns.filter fun n => !n.isBlankText := by
      rw [hns]
      exact List.mem_cons_self
    exact (literalList_iff.mp h _ (List.mem_filter.mp hmem).1).elim
  · rfl

theorem sameInline_of_none {as bs : List Node} (halike : AlikeList as bs) (has : LiteralList as)
    (h : Returns (mergeInline? chain around as bs) s none t) : SameInline around.left as bs := by
  intro hallows htree helement
  have hbs : Markdown.isInlineTree bs = true := Markdown.isInlineTree_of_alike as bs halike ▸ htree
  have hnone {kind : SlotKind} : singleSlot? kind bs = none :=
    singleSlot?_of_alike kind halike ▸ singleSlot?_of_literals has
  rw [mergeInline?, hallows, singleSlot?_of_literals has, hnone] at h
  simp only [singleSlot?_of_literals has, hnone, htree, hbs, helement, markdown, Option.isSome_none,
    Option.isNone_none, Bool.not_true, Bool.and_false, Bool.or_false, Bool.true_or, Bool.false_eq_true,
    Bool.and_self, if_false, Bool.true_and, returns_bind, returns_ofExcept] at h
  obtain ⟨x, _, ⟨hx, rfl⟩, y, _, ⟨hy, rfl⟩, h⟩ := h
  split at h
  · next hxy => rw [hx, hy, beq_iff_eq.mp hxy]
  · simp at h

theorem sameBlocks_of_none {as bs : List Node} (halike : AlikeList as bs) (has : LiteralList as)
    (h : Returns (mergeBlocks? chain around as bs) s none t) : SameBlocks around.left as bs := by
  intro hallows hhead
  rcases as with _ | ⟨a, as⟩
  · cases hhead
  rcases bs with _ | ⟨b, bs⟩
  · exact halike.elim
  have hblock : Markdown.isBlock a = true := hhead
  have hblock' : Markdown.isBlock b = true := Markdown.isBlock_of_alike a b halike.1 ▸ hblock
  cases a with
  | element tag cs =>
    cases b with
    | element tag' ds =>
      rw [mergeBlocks?, hallows] at h
      simp only [List.head?_cons, Option.map_some, Option.getD_some, hblock, hblock', Bool.not_true,
        Bool.false_eq_true, if_false, Bool.and_self, if_true, markdown, returns_bind, returns_ofExcept] at h
      obtain ⟨x, _, ⟨hx, rfl⟩, y, _, ⟨hy, rfl⟩, h⟩ := h
      split at h
      · next hxy => rw [hx, hy, beq_iff_eq.mp hxy]
      · simp at h
    | _ => exact halike.1.elim
  | literal => cases hblock
  | _ => exact has.1.elim

variable {α : Type} [Grade α] {merge : NodeMerger}

theorem references_ne_of_runs {a b : Node} {restA restB : List Node} {taken : Taken}
    (h : Runs α merge chain around a b restA restB s taken t) : taken.node.references ≠ [] := by
  obtain ⟨_, _, _, _, _, _, _, ⟨_⟩⟩ := h
  simp [references]

theorem unlooped_of_none [Counting α] {a b : Node} {restA restB : List Node} (halike : a.Alike b)
    (hfits : Counting.Fits α a.size)
    (h : Returns (mergeRuns? α merge chain around a b restA restB) s none t) : Unlooped α a b restA restB := by
  intro tag htag hincluded
  cases a <;> cases htag
  cases b <;> first | exact halike.elim | skip
  next cs tag' ds =>
    have hreaches : Score.reachesThreshold (α := α) (.element tag cs) (.element tag' ds) = true :=
      decide_eq_true (reaches (Score.counts_score _ _ halike hfits))
    have hname : loopExcluded.contains tag'.name = false := halike.1.name ▸ hincluded
    simp only [mergeRuns?, hincluded, hname, hreaches, Bool.or_self, Bool.false_eq_true, if_false, Bool.not_true,
      returns_bind] at h
    obtain ⟨_, _, -, _, _, -, _, _, -, h⟩ := h
    split at h
    · next hruns => exact .inl (by simpa using hruns)
    · split at h
      · next hsame => exact .inr hsame
      · simp at h

theorem settled_fronts [Counting α] {a b : Node} {restA restB : List Node} {taken : Taken}
    (halike : AlikeList (a :: restA) (b :: restB)) (has : LiteralList (a :: restA))
    (hfits : Counting.Fits α a.size) (hno : taken.node.references = [])
    (h : Returns (mergeFronts α merge chain around a b restA restB) s taken t) :
    Unlooped α a b restA restB ∧ SameBlocks around.left (a :: restA) (b :: restB) ∧
      ∃ n u, taken = ⟨n, 1, 1⟩ ∧ Returns (merge chain around a b) u n t := by
  have hone : isOne (Score.score false a b : α) = true :=
    Counting.isOne (Score.counts_score a b halike.1 hfits)
  unfold mergeFronts at h
  rw [returns_bind] at h
  obtain ⟨blocks, u, hblocks, h⟩ := h
  cases blocks with
  | some other =>
    obtain ⟨rfl, -⟩ := returns_pure.mp h
    exact absurd hno (references_ne_of_blocks (Returns.mergeBlocks hblocks))
  | none =>
    rw [returns_bind] at h
    obtain ⟨runs, v, hruns, h⟩ := h
    cases runs with
    | some other =>
      obtain ⟨rfl, -⟩ := returns_pure.mp h
      exact absurd hno (references_ne_of_runs (Returns.mergeRuns hruns))
    | none =>
      rw [returns_bind] at h
      obtain ⟨_, w, -, h⟩ := h
      dsimp only at h
      rw [if_pos hone] at h
      refine ⟨unlooped_of_none halike.1 hfits hruns, sameBlocks_of_none halike has hblocks, ?_⟩
      obtain ⟨u, -, hpartners⟩ := Returns.mergePair h
      cases hpartners with
      | absorbRight => exact has.1.elim
      | absorbLeft => cases a <;> first | exact halike.1.elim | exact has.1.elim
      | merged hmerge => exact ⟨_, u, rfl, hmerge⟩

mutual
theorem settled_of_merge [Counting α] : (a b : Node) → a.Alike b → a.Literal → Counting.Fits α a.size →
    {fuel : Nat} → {chain : Scope} → {around : Around} → {s t : MergeState} → {n : Node} →
    n.references = [] → Returns (mergeNode α fuel chain around a b) s n t → Settled α a b
  | .literal .., b, halike, _, _, _, _, _, _, _, _, _, _ => by
    cases b <;> trivial
  | .element tag cs, b, halike, ha, hfits, 0, _, _, _, _, _, _, h => absurd h not_returns_throw
  | .element tag cs, b, halike, ha, hfits, fuel + 1, chain, around, s, t, n, hno, h => by
    cases b with
    | element tag' ds =>
      rw [Settled]
      cases Returns.mergeStep h with
      | elements hname hsvg _ hchildren =>
        rw [if_neg hsvg]
        rw [references, List.append_eq_nil_iff] at hno
        rw [Node.size] at hfits
        rw [mergeSiblings, returns_bind] at hchildren
        obtain ⟨inline, u, hinline, hchildren⟩ := hchildren
        cases inline with
        | some nodes =>
          obtain ⟨rfl, -⟩ := returns_pure.mp hchildren
          exact absurd hno.2 (references_ne_of_inlined (Returns.mergeInline hinline))
        | none =>
          have hnodes := settledList_of_align cs ds halike.2 ha.2.2 (fits_mono (by omega) hfits) hno.2 hchildren
          exact ⟨sameInline_of_none halike.2 ha.2.2 hinline, hnodes⟩
      | drawings _ _ _ _ _ _ => simp [references] at hno
      | kept hkept _ =>
        cases hkept with
        | drawing hsvg _ hx hy =>
          rw [if_pos hsvg]
          exact ⟨_, hx, hy⟩
    | _ => exact halike.elim

theorem settledList_of_align [Counting α] : (as bs : List Node) → AlikeList as bs → LiteralList as →
    Counting.Fits α (sizeOfList as) → {fuel steps : Nat} → {chain : Scope} → {around : Around} →
    {s t : MergeState} → {ns : List Node} → referencesOfList ns = [] →
    Returns (align α (mergeNode α fuel) chain around steps as bs) s ns t → SettledList α around.left as bs
  | [], bs, halike, _, _, _, _, _, _, _, _, _, _, _ => by
    cases bs <;> trivial
  | a :: as, bs, halike, has, hfits, fuel, steps, chain, around, s, t, ns, hno, h => by
    cases bs with
    | nil => exact halike.elim
    | cons b bs =>
      cases steps with
      | zero => exact absurd h not_returns_throw
      | succ steps =>
        rw [sizeOfList] at hfits
        simp only [align, returns_bind, returns_pure] at h
        obtain ⟨taken, u, hfront, others, v, hrest, rfl, rfl⟩ := h
        obtain ⟨hfirst, hothers⟩ := List.append_eq_nil_iff.mp hno
        obtain ⟨hruns, hblocks, n, w, rfl, hmerge⟩ :=
          settled_fronts halike has (fits_mono (by omega) hfits) hfirst hfront
        have hnode := settled_of_merge a b halike.1 has.1 (fits_mono (by omega) hfits) hfirst hmerge
        have hnodes := settledList_of_align as bs halike.2 has.2 (fits_mono (by omega) hfits) hothers hrest
        exact ⟨hnode, hruns, hblocks, hnodes⟩
end

variable (α) [Counting α]

/-- Two literal nodes with an exact score of 1, in every state and place: the result is the first of them and
nothing changes, or every result has a slot or a block. -/
theorem unvaried_iff_settled {a b : Node} (ha : a.Literal) (hb : b.Literal)
    (hone : Grade.isOne (Score.score false a b : Rat) = true) (hsize : Counting.Fits α a.size) (chain : Scope)
    (around : Around) (s : MergeState) :
    (Returns (nodes α chain around a b) s a s ↔ Settled α a b) ∧
      ((∃ n t, Returns (nodes α chain around a b) s n t ∧ n.references = []) ↔ Settled α a b) := by
  have halike : a.Alike b := Score.alike_of_score a b ha hb (Exact.isOne_iff.mp hone)
  have hlist : AlikeList [a] [b] := ⟨halike, trivial⟩
  have hdepth : a.elementDepth + a.blockDepth < nesting [a] [b] := by
    have h := depth_lt_nesting [a] [b]
    simpa [elementDepthOfList, blockDepthOfList] using h
  have hreturns (hset : Settled α a b) : Returns (nodes α chain around a b) s a s :=
    returns_settled a b halike hset (Literal.proper a ha) hsize (nesting [a] [b]) hdepth chain around s
  have hno : a.references = [] := Literal.references a ha
  have hsettled {n : Node} {t : MergeState} (hn : n.references = [])
      (h : Returns (nodes α chain around a b) s n t) : Settled α a b :=
    settled_of_merge a b halike ha hsize hn h
  refine ⟨⟨hsettled hno, hreturns⟩, ⟨?_, fun hset => ⟨a, s, hreturns hset, hno⟩⟩⟩
  rintro ⟨n, t, h, hn⟩
  exact hsettled hn h

theorem unvaried_iff_settled_classes :
    let a : Node := .element ⟨"div", []⟩ [.element ⟨"p", [.fixed "class" "a b"]⟩ [.text "x"]]
    let b : Node := .element ⟨"div", []⟩ [.element ⟨"p", [.fixed "class" "b a"]⟩ [.text "x"]]
    a.Literal ∧ b.Literal ∧ Grade.isOne (Score.score false a b : Rat) = true ∧ Counting.Fits Float a.size ∧
      Settled Float a b ∧ ∀ s, Returns (nodes Float ["page"] {} a b) s a s := by
  intro a b
  have ha : a.Literal := by simp [a, Literal, LiteralList, Attribute.isFixed]
  have hb : b.Literal := by simp [b, Literal, LiteralList, Attribute.isFixed]
  have hone : Grade.isOne (Score.score false a b : Rat) = true := by cbv
  have hsize : Counting.Fits Float a.size := by
    change a.size < 2 ^ 53
    decide +kernel
  have hset : Settled Float a b := by
    simp [a, b, Settled, SettledList, SameInline, SameBlocks, Unlooped, Score.repeats, Score.repeatsFrom,
      Markdown.containsElement, Node.isElement, Markdown.allowsInline, Markdown.inlineParents, Markdown.headings,
      Markdown.isBlock, Markdown.hasAllowedAttributes, Markdown.allowedAttributes]
  exact ⟨ha, hb, hone, hsize, hset, fun s =>
    (unvaried_iff_settled Float ha hb hone hsize ["page"] {} s).1.mpr hset⟩

/-- Two lists whose items, and two drawings whose tags, write a boolean attribute in two ways, and two texts
so deep inside of other elements that their difference is lost in rounding. -/
theorem unit_score_varies :
    let shown (name x : String) : Node := .element ⟨name, [.fixed "hidden" x]⟩ []
    let items (x : String) : Node := .element ⟨"ul", []⟩ [shown "li" x, shown "li" x]
    let deep (x : String) : Node := (List.replicate 34 ()).foldr (fun _ n => .element ⟨"b", []⟩ [n]) (.text x)
    ∀ p ∈ [(items "", items "hidden"), (shown "svg" "", shown "svg" "hidden"), (deep "x", deep "y")],
      Grade.isOne (Score.score false p.1 p.2 : Float) = true ∧
        ∃ n t, Returns (nodes Float [] {} p.1 p.2) {} n t ∧ n.references ≠ [] := by
  intro shown items deep p hp
  have hvaries : Grade.isOne (Score.score false p.1 p.2 : Float) = true ∧
      ((nodes Float [] {} p.1 p.2).run {}).1.toOption.map (fun n => n.references.isEmpty) = some false := by
    revert p
    decide +kernel
  obtain ⟨n, t, h, hn⟩ := exists_returns hvaries.2
  exact ⟨hvaries.1, n, t, h, by simpa using hn⟩

end Stencil.Merge
