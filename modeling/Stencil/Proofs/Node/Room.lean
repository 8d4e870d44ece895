import Stencil.Merge.Loop

namespace Stencil.Node

mutual
/-- At most so many elements on a path, and up to the first of them so many loops. Conditionals are counted up
to the next loop or element; inside of that there may be `width` of them, and inside an element as many
loops. -/
def Bounded (width : Nat) : Nat → Nat → Nat → Node → Prop
  | elements, _, _, element _ cs => 0 < elements ∧ BoundedAll width (elements - 1) cs
  | elements, loops, _, block .loop _ t => 0 < loops ∧ Bounded width elements (loops - 1) width t
  | elements, loops, conditionals, block .conditional _ t =>
    0 < conditionals ∧ Bounded width elements loops (conditionals - 1) t
  | _, _, _, _ => True

def BoundedAll (width : Nat) : Nat → List Node → Prop
  | _, [] => True
  | elements, n :: rest => Bounded width elements width width n ∧ BoundedAll width elements rest
end

theorem boundedAll_iff {width elements : Nat} {ns : List Node} :
    BoundedAll width elements ns ↔ ∀ n ∈ ns, n.Bounded width elements width width := by
  induction ns with
  | nil => simp [BoundedAll]
  | cons n ns ih => rw [BoundedAll, ih, List.forall_mem_cons]

mutual
theorem Bounded.mono {width elements elements' loops loops' conditionals conditionals' : Nat} {n : Node}
    (h : n.Bounded width elements loops conditionals) (he : elements ≤ elements')
    (hl : loops ≤ loops') (hc : conditionals ≤ conditionals') :
    n.Bounded width elements' loops' conditionals' := by
  match n with
  | element _ cs =>
    rw [Bounded] at h ⊢
    exact ⟨by omega, BoundedAll.mono h.2 (by omega)⟩
  | block .loop _ t =>
    rw [Bounded] at h ⊢
    exact ⟨by omega, Bounded.mono h.2 he (by omega) (Nat.le_refl _)⟩
  | block .conditional _ t =>
    rw [Bounded] at h ⊢
    exact ⟨by omega, Bounded.mono h.2 he hl (by omega)⟩
  | literal .. | slot .. | content | foreign => simp [Bounded]

theorem BoundedAll.mono {width elements elements' : Nat} {ns : List Node}
    (h : BoundedAll width elements ns) (he : elements ≤ elements') : BoundedAll width elements' ns := by
  match ns with
  | [] => trivial
  | n :: ns => exact ⟨Bounded.mono h.1 he (Nat.le_refl _) (Nat.le_refl _), BoundedAll.mono h.2 he⟩
end

mutual
theorem bounded_of_depth {width elements loops conditionals : Nat} (n : Node)
    (he : n.elementDepth ≤ elements) (hw : n.blockDepth ≤ width) (hl : n.blockDepth ≤ loops)
    (hc : n.blockDepth ≤ conditionals) : n.Bounded width elements loops conditionals := by
  match n with
  | element _ cs =>
    rw [elementDepth] at he
    rw [blockDepth] at hw
    exact ⟨by omega, boundedAll_of_depth cs (by omega) hw⟩
  | block .loop _ t =>
    rw [elementDepth] at he
    rw [blockDepth] at hw hl
    exact ⟨by omega, bounded_of_depth t he (by omega) (by omega) (by omega)⟩
  | block .conditional _ t =>
    rw [elementDepth] at he
    rw [blockDepth] at hw hl hc
    exact ⟨by omega, bounded_of_depth t he (by omega) (by omega) (by omega)⟩
  | literal .. | slot .. | content | foreign => simp [Bounded]

theorem boundedAll_of_depth {width elements : Nat} (ns : List Node)
    (he : elementDepthOfList ns ≤ elements) (hw : blockDepthOfList ns ≤ width) :
    BoundedAll width elements ns := by
  match ns with
  | [] => trivial
  | n :: ns =>
    rw [elementDepthOfList] at he
    rw [blockDepthOfList] at hw
    exact ⟨bounded_of_depth n (by omega) (by omega) (by omega) (by omega),
      boundedAll_of_depth ns (by omega) (by omega)⟩
end

mutual
theorem Bounded.elementDepth_le {width elements loops conditionals : Nat} {n : Node}
    (h : n.Bounded width elements loops conditionals) : n.elementDepth ≤ elements := by
  match n with
  | element _ cs =>
    rw [Bounded] at h
    have hcs := BoundedAll.elementDepth_le h.2
    rw [elementDepth]
    omega
  | block .loop _ t =>
    rw [Bounded] at h
    rw [elementDepth]
    exact Bounded.elementDepth_le h.2
  | block .conditional _ t =>
    rw [Bounded] at h
    rw [elementDepth]
    exact Bounded.elementDepth_le h.2
  | literal .. | slot .. | content | foreign => exact Nat.zero_le _

theorem BoundedAll.elementDepth_le {width elements : Nat} {ns : List Node}
    (h : BoundedAll width elements ns) : elementDepthOfList ns ≤ elements := by
  match ns with
  | [] => exact Nat.zero_le _
  | n :: ns => exact Nat.max_le.mpr ⟨Bounded.elementDepth_le h.1, BoundedAll.elementDepth_le h.2⟩
end

mutual
theorem Bounded.insertKey (depth : Nat) (key : String) {width elements loops conditionals : Nat}
    {n : Node} (h : n.Bounded width elements loops conditionals) :
    (n.insertKey depth key).Bounded width elements loops conditionals := by
  match n with
  | element _ cs => exact ⟨h.1, BoundedAll.insertKeys depth key h.2⟩
  | block .loop _ t =>
    rw [Bounded] at h
    exact ⟨h.1, Bounded.insertKey depth key h.2⟩
  | block .conditional _ t =>
    rw [Bounded] at h
    exact ⟨h.1, Bounded.insertKey depth key h.2⟩
  | literal .. | slot .. | content | foreign => simp [Node.insertKey, Bounded]

theorem BoundedAll.insertKeys (depth : Nat) (key : String) {width elements : Nat} {ns : List Node}
    (h : BoundedAll width elements ns) : BoundedAll width elements (insertKeys depth key ns) := by
  match ns with
  | [] => trivial
  | n :: ns => exact ⟨Bounded.insertKey depth key h.1, BoundedAll.insertKeys depth key h.2⟩
end

variable {width elements loops loops' conditionals conditionals' : Nat} {n : Node}

theorem Bounded.of_isElement (h : n.Bounded width elements loops conditionals) (hn : n.isElement = true) :
    n.Bounded width elements loops' conditionals' := by
  cases n <;> cases hn
  exact h

theorem Bounded.of_not_conditional (h : n.Bounded width elements loops conditionals)
    (hn : ∀ r t, n ≠ block .conditional r t) : n.Bounded width elements loops conditionals' := by
  match n with
  | block .conditional r t => exact absurd rfl (hn r t)
  | block .loop _ _ | element .. => exact h
  | literal .. | slot .. | content | foreign => simp [Bounded]

end Stencil.Node
