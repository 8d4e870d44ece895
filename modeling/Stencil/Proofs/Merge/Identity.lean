import Stencil.Proofs.Merge.Settled

/-!
Merging a list of nodes with itself gives the list back and changes nothing, whatever slots and blocks it
holds. Drawings are the exception: they are compared as markup, so they must be free of slots themselves.
-/

namespace Stencil

namespace Node

mutual
def StaticDrawings : Node → Prop
  | element t cs => (t.name = "svg" → Static (element t cs)) ∧ StaticDrawingsList cs
  | block _ _ t => StaticDrawings t
  | _ => True

def StaticDrawingsList : List Node → Prop
  | [] => True
  | n :: rest => StaticDrawings n ∧ StaticDrawingsList rest
end

end Node

namespace Merge

open Node Grade

variable {α : Type} [Grade α]

theorem unlooped_self {a : Node} {rest : List Node} (ha : a.Proper) (hrest : ProperList rest) :
    Unlooped α a a rest rest := by
  intro tag _ _
  refine .inr (sameList_refl _ (properList_iff.mpr ?_))
  intro n hn
  rcases List.mem_cons.mp (List.mem_filter.mp hn).1 with rfl | hn
  · exact ha
  · exact properList_iff.mp hrest n (List.mem_of_mem_take hn)

mutual
theorem settled_self : (n : Node) → n.Proper → n.StaticDrawings → Settled α n n
  | .literal .., _, _ => trivial
  | .slot .., _, _ => trivial
  | .content, _, _ => trivial
  | .foreign, _, _ => trivial
  | .block _ _ t, hp, hd => settled_self t hp hd
  | .element t cs, hp, hd => by
    rw [Settled]
    split
    · next hsvg =>
      have hstatic : StaticList [.element t cs] := ⟨hd.1 hsvg, trivial⟩
      obtain ⟨x, hx⟩ := Markup.render_ok hstatic
      exact ⟨x, hx, hx⟩
    · exact ⟨fun _ _ _ => rfl, settledList_self cs hp.2 hd.2⟩

theorem settledList_self {enclosing : Option Tag} : (ns : List Node) → ProperList ns →
    StaticDrawingsList ns → SettledList α enclosing ns ns
  | [], _, _ => trivial
  | n :: ns, hp, hd =>
    ⟨settled_self n hp.1 hd.1, unlooped_self hp.1 hp.2, fun _ _ => rfl, settledList_self ns hp.2 hd.2⟩
end

theorem depth_lt_nesting (as bs : List Node) : elementDepthOfList as + blockDepthOfList as < nesting as bs := by
  unfold nesting
  dsimp only
  generalize hdepth : max (elementDepthOfList as) (elementDepthOfList bs) = depth
  generalize hblocks : max 1 (max (blockDepthOfList as) (blockDepthOfList bs)) = blocks
  have hfactor : blocks + 1 ≤ 2 * ((blocks + 1) * blocks + blocks) + 2 := by omega
  have hproduct : (depth + 1) * (blocks + 1) = depth * blocks + depth + blocks + 1 := by
    rw [Nat.add_mul, Nat.mul_add]
    omega
  have hbound := Nat.mul_le_mul_left (depth + 1) hfactor
  omega

variable (α) [Counting α]

/-- In every state and scope: nothing is found to differ, so no value, no key and no event is added. -/
theorem merge_self {L : List Node} (hproper : ProperList L) (hknown : anyForeign L = false)
    (hdrawings : StaticDrawingsList L) (hsize : Counting.Fits α (sizeOfList L)) (chain : Scope)
    (enclosing : Option Tag) (s : MergeState) :
    Returns (lists α chain ⟨enclosing, enclosing⟩ L L) s L s := by
  have halike : AlikeList L L := alikeList_refl L hproper hknown
  have hsettled : SettledList α enclosing L L := settledList_self L hproper hdrawings
  have halign := returns_align L L halike hsettled hproper hsize (nesting L L) (depth_lt_nesting L L) (L.length + L.length) (Nat.le_add_right _ _) chain
    ⟨enclosing, enclosing⟩ rfl s
  rw [lists, mergeSiblings, returns_bind]
  exact ⟨none, s, returns_mergeInline halike fun _ _ _ => rfl, halign⟩

theorem merge_self_items :
    let L : List Node := [
      .block .loop ["items"] (.element ⟨"li", [.slot "class" ["items", "class"]]⟩ [.slot .plain ["items", "li"]]),
      .block .conditional ["p"] (.element ⟨"p", [.optional "id" ["p", "id"]]⟩ [.text "a", .slot .html ["p", "svg"]]),
      .element ⟨"svg", [.fixed "width" "8"]⟩ [.element ⟨"path", []⟩ []], .content]
    ProperList L ∧ anyForeign L = false ∧ StaticDrawingsList L ∧ Counting.Fits Float (sizeOfList L) ∧
      ∀ s, Returns (lists Float ["page"] {} L L) s L s := by
  intro L
  have hproper : ProperList L := by simp [L, ProperList, Proper, Attribute.name]
  have hknown : anyForeign L = false := by decide +kernel
  have hdrawings : StaticDrawingsList L := by
    simp [L, StaticDrawingsList, StaticDrawings, Static, StaticList, Attribute.isFixed]
  have hsize : Counting.Fits Float (sizeOfList L) := by
    change sizeOfList L < 2 ^ 53
    decide +kernel
  exact ⟨hproper, hknown, hdrawings, hsize, merge_self Float hproper hknown hdrawings hsize ["page"] none⟩

theorem drawing_with_slot_fails :
    let L : List Node := [.element ⟨"svg", [.slot "class" ["class"]]⟩ [.element ⟨"path", []⟩ []]]
    ProperList L ∧ anyForeign L = false ∧ LiteralList [.element ⟨"path", []⟩ []] ∧
      ¬ ∃ ns t, Returns (lists Float [] {} L L) {} ns t := by
  intro L
  refine ⟨by simp [L, ProperList, Proper], by decide +kernel, by simp [LiteralList, Literal], ?_⟩
  rintro ⟨ns, t, h⟩
  have hfails : ((lists Float [] {} L L).run {}).1.toOption.isNone = true := by decide +kernel
  rw [h] at hfails
  cases hfails

end Merge

end Stencil
