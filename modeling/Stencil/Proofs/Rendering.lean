import Stencil.Proofs.Node.Kind
import Stencil.Proofs.Merge.Literal

namespace Stencil

namespace Node

mutual
theorem Literal.static : (n : Node) → n.Literal → n.Static
  | literal .., _ => trivial
  | element _ cs, h => ⟨h.2.1, LiteralList.static cs h.2.2⟩

theorem LiteralList.static : (ns : List Node) → LiteralList ns → StaticList ns
  | [], _ => trivial
  | n :: ns, h => ⟨Literal.static n h.1, LiteralList.static ns h.2⟩
end

end Node

namespace Markup

open Node

theorem renderAttributes_ok_of {d : Dialect} {depth : Nat} {attrs : List Attribute}
    (h : ∀ a ∈ attrs, ∃ x, renderAttribute d depth a = .ok x) : ∃ x, renderAttributes d depth attrs = .ok x := by
  obtain ⟨parts, hparts⟩ := mapM_ok_iff.mpr h
  rw [renderAttributes, hparts]
  exact ⟨_, rfl⟩

theorem renderAttributes_ok {attrs : List Attribute} (h : ∀ a ∈ attrs, a.isFixed = true) (depth : Nat) :
    ∃ x, renderAttributes plain depth attrs = .ok x := by
  apply renderAttributes_ok_of
  intro a ha
  have hfixed := h a ha
  cases a with
  | fixed n v => exact ⟨_, rfl⟩
  | _ => cases hfixed

mutual
theorem renderNode_ok : (n : Node) → n.Static → (depth : Nat) → (raw : Bool) →
    ∃ x, renderNode plain depth raw n = .ok x
  | .literal k v, _, depth, raw => ⟨_, by rw [renderNode]⟩
  | .element t cs, h, depth, raw => by
    obtain ⟨attrs, hattrs⟩ := renderAttributes_ok h.1 depth
    obtain ⟨inner, hinner⟩ := renderNodes_ok cs h.2 depth (rawTextElements.contains t.name)
    unfold renderNode
    rw [hattrs]
    simp only [bind, Except.bind]
    split
    · exact ⟨_, rfl⟩
    · rw [hinner]
      exact ⟨_, rfl⟩

theorem renderNodes_ok : (ns : List Node) → StaticList ns → (depth : Nat) → (raw : Bool) →
    ∃ x, renderNodes plain depth raw ns = .ok x
  | [], _, _, _ => ⟨_, by rw [renderNodes]⟩
  | n :: ns, h, depth, raw => by
    obtain ⟨first, hfirst⟩ := renderNode_ok n h.1 depth raw
    obtain ⟨others, hothers⟩ := renderNodes_ok ns h.2 depth raw
    rw [renderNodes, hfirst, hothers]
    exact ⟨_, rfl⟩
end

theorem render_ok {ns : List Node} (h : StaticList ns) : ∃ x, render ns = .ok x :=
  renderNodes_ok ns h 0 false

theorem render_ok_iff {ns : List Node} : (∃ x, render ns = .ok x) ↔ StaticList ns :=
  ⟨fun ⟨_, h⟩ => static_of_render h, render_ok⟩

end Markup

namespace Markdown

open Node

theorem ofNodes_ok {ns : List Node} (h : StaticList ns) : ∃ x, ofNodes ns = .ok x := by
  obtain ⟨markup, hmarkup⟩ := Markup.render_ok h
  rw [ofNodes, hmarkup]
  exact ⟨_, rfl⟩

end Markdown

end Stencil
