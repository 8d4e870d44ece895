import Stencil.Merge.Text
import Stencil.Proofs.Failure
import Stencil.Proofs.LongestRun
import Stencil.Proofs.Node.Scope

namespace Stencil

namespace Node

mutual
theorem hasBlock_of_references_nil : (n : Node) → n.references = [] → n.hasBlock = false
  | literal .., _ => rfl
  | slot .., _ => rfl
  | content, _ => rfl
  | foreign, _ => rfl
  | block .., h => by simp [references] at h
  | element _ cs, h => anyBlock_of_references_nil cs (List.append_eq_nil_iff.mp h).2

theorem anyBlock_of_references_nil : (ns : List Node) → referencesOfList ns = [] → anyBlock ns = false
  | [], _ => rfl
  | n :: ns, h => by
    obtain ⟨hn, hs⟩ := List.append_eq_nil_iff.mp h
    rw [anyBlock, hasBlock_of_references_nil n hn, anyBlock_of_references_nil ns hs, Bool.or_self]
end

theorem referencesOfList_eq_nil_iff {ns : List Node} :
    referencesOfList ns = [] ↔ ∀ n ∈ ns, n.references = [] := by
  rw [referencesOfList_eq, List.flatMap_eq_nil_iff]

mutual
def Static : Node → Prop
  | literal .. => True
  | element t cs => (∀ a ∈ t.attrs, a.isFixed = true) ∧ StaticList cs
  | _ => False

def StaticList : List Node → Prop
  | [] => True
  | n :: rest => Static n ∧ StaticList rest
end

theorem staticList_iff {ns : List Node} : StaticList ns ↔ ∀ n ∈ ns, n.Static := by
  induction ns with
  | nil => simp [StaticList]
  | cons n ns ih => rw [StaticList, ih, List.forall_mem_cons]

mutual
theorem Static.references : (n : Node) → n.Static → n.references = []
  | literal .., _ => rfl
  | element _ cs, h => by
    rw [Node.references, references_of_isFixed h.1, StaticList.references cs h.2, List.append_nil]

theorem StaticList.references : (ns : List Node) → StaticList ns → referencesOfList ns = []
  | [], _ => rfl
  | n :: ns, h => by
    rw [referencesOfList, Static.references n h.1, StaticList.references ns h.2, List.append_nil]
end

theorem static_of_isBlankText {n : Node} (h : n.isBlankText = true) : n.Static := by
  cases n <;> trivial

theorem references_of_isBlankText {n : Node} (h : n.isBlankText = true) : n.references = [] :=
  Static.references n (static_of_isBlankText h)

end Node

namespace Markup

open Node

theorem isFixed_of_renderAttribute {depth : Nat} {a : Attribute} {x : String}
    (h : renderAttribute plain depth a = .ok x) : a.isFixed = true := by
  cases a <;> first | rfl | cases h

theorem isFixed_of_renderAttributes {depth : Nat} {attrs : List Attribute} {x : String}
    (h : renderAttributes plain depth attrs = .ok x) : ∀ a ∈ attrs, a.isFixed = true := by
  intro a ha
  obtain ⟨parts, hparts, -⟩ := bind_eq_ok.mp h
  obtain ⟨y, hy⟩ := mapM_ok_iff.mp ⟨parts, hparts⟩ a ha
  exact isFixed_of_renderAttribute hy

mutual
theorem static_of_renderNode : (n : Node) → {depth : Nat} → {raw : Bool} → {x : String} →
    renderNode plain depth raw n = .ok x → n.Static
  | .literal .., _, _, _, _ => trivial
  | .slot .., _, _, _, h => by cases h
  | .block .., _, _, _, h => by cases h
  | .content, _, _, _, h => by simp [renderNode, plain] at h
  | .foreign, _, _, _, h => by simp [renderNode] at h
  | .element t cs, depth, raw, x, h => by
    unfold renderNode at h
    cases ha : renderAttributes plain depth t.attrs with
    | error e =>
      rw [ha] at h
      cases h
    | ok attrs =>
      refine ⟨isFixed_of_renderAttributes ha, ?_⟩
      rw [ha] at h
      simp only [Except.bind, bind] at h
      split at h
      · next hvoid =>
        simp only [Bool.and_eq_true, List.isEmpty_iff] at hvoid
        rw [hvoid.1]
        trivial
      · split at h
        · cases h
        · next hcs => exact static_of_renderNodes cs hcs

theorem static_of_renderNodes : (ns : List Node) → {depth : Nat} → {raw : Bool} → {x : String} →
    renderNodes plain depth raw ns = .ok x → StaticList ns
  | [], _, _, _, _ => trivial
  | n :: ns, depth, raw, x, h => by
    unfold renderNodes at h
    simp only [Except.bind, bind] at h
    split at h
    · cases h
    · next hn =>
      split at h
      · cases h
      · next hns => exact ⟨static_of_renderNode n hn, static_of_renderNodes ns hns⟩
end

theorem static_of_render {ns : List Node} {x : String} (h : render ns = .ok x) : StaticList ns :=
  static_of_renderNodes ns h

theorem references_of_render {n : Node} {x : String} (h : render [n] = .ok x) : n.references = [] :=
  Static.references n (static_of_render h).1

end Markup

namespace Markdown

open Node

theorem isFixed_of_hasAllowedAttributes {t : Tag} (h : hasAllowedAttributes t = true) :
    ∀ a ∈ t.attrs, a.isFixed = true := by
  intro a ha
  have hallowed := List.all_eq_true.mp h a ha
  rw [Bool.and_eq_true] at hallowed
  exact hallowed.1

mutual
theorem static_of_isInline : (n : Node) → isInline n = true → n.Static
  | .literal .., _ => trivial
  | .slot .., h => by simp [isInline] at h
  | .block .., h => by simp [isInline] at h
  | .content, h => by simp [isInline] at h
  | .foreign, h => by simp [isInline] at h
  | .element t cs, h => by
    simp only [isInline, Bool.and_eq_true] at h
    exact ⟨isFixed_of_hasAllowedAttributes h.1.2, static_of_isInlineTree cs h.2⟩

theorem static_of_isInlineTree : (ns : List Node) → isInlineTree ns = true → StaticList ns
  | [], _ => trivial
  | n :: ns, h => by
    simp only [isInlineTree, Bool.and_eq_true] at h
    exact ⟨static_of_isInline n h.1, static_of_isInlineTree ns h.2⟩
end

theorem static_of_isListItem {n : Node} (h : isListItem n = true) : n.Static := by
  cases n with
  | element t cs =>
    simp only [isListItem, Bool.and_eq_true, List.isEmpty_iff] at h
    refine ⟨?_, static_of_isInlineTree cs h.2⟩
    rw [h.1.2]
    simp
  | _ => simp [isListItem] at h

theorem static_of_isBlock {n : Node} (h : isBlock n = true) : n.Static := by
  cases n with
  | element t cs =>
    simp only [isBlock, Bool.and_eq_true] at h
    obtain ⟨⟨-, hattrs⟩, hcs⟩ := h
    refine ⟨isFixed_of_hasAllowedAttributes hattrs, ?_⟩
    split at hcs
    · rw [List.isEmpty_iff.mp hcs]
      trivial
    · split at hcs
      · simp only [Bool.and_eq_true] at hcs
        rw [staticList_iff]
        intro n hn
        by_cases hblank : n.isBlankText = true
        · exact static_of_isBlankText hblank
        · have hitem : n ∈ cs.filter fun n => !n.isBlankText := by simp [hn, hblank]
          exact static_of_isListItem (List.all_eq_true.mp hcs.2 n hitem)
      · exact static_of_isInlineTree cs hcs
  | _ => simp [isBlock] at h

theorem static_of_run (ns : List Node) : StaticList (ns.take (run ns)) := by
  rw [staticList_iff]
  intro n hn
  rcases (longestRun_run ns).within n hn with hblank | hblock
  · exact static_of_isBlankText hblank
  · exact static_of_isBlock hblock.2

theorem references_of_isInlineTree (ns : List Node) (h : isInlineTree ns = true) : referencesOfList ns = [] :=
  StaticList.references ns (static_of_isInlineTree ns h)

theorem references_of_run (ns : List Node) : referencesOfList (ns.take (run ns)) = [] :=
  StaticList.references _ (static_of_run ns)

end Markdown

end Stencil
