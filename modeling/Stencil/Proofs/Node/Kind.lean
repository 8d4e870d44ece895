import Stencil.Markdown.Detect
import Stencil.Proofs.Node.Scope
import Stencil.Score.Basic

namespace Stencil.Node

inductive Kind
  | literal (kind : LiteralKind)
  | element (name : String)
  | other
  deriving DecidableEq

def kind (n : Node) : Kind :=
  match n.core with
  | literal k _ => .literal k
  | element t _ => .element t.name
  | slot .plain _ | slot .inlineMarkdown _ => .literal .text
  | slot .html _ => .element "svg"
  | _ => .other

mutual
def Literal : Node → Prop
  | literal .. => True
  | element t cs => (t.attrs.map Attribute.name).Nodup ∧ (∀ a ∈ t.attrs, a.isFixed = true) ∧
      LiteralList cs
  | _ => False

def LiteralList : List Node → Prop
  | [] => True
  | n :: rest => Literal n ∧ LiteralList rest
end

mutual
def Varied : Node → Prop
  | element t cs => Markdown.flowParents.contains t.name = false ∧
      Markdown.inlineParents.contains t.name = false ∧
      (t.name = "svg" ∨ VariedList cs ∧ (cs.map kind).Nodup)
  | _ => True

def VariedList : List Node → Prop
  | [] => True
  | n :: rest => Varied n ∧ VariedList rest
end

mutual
theorem Literal.references : (n : Node) → n.Literal → n.references = []
  | literal .., _ => rfl
  | element t cs, h => by
    rw [Node.references, references_of_isFixed h.2.1, LiteralList.references cs h.2.2, List.append_nil]

theorem LiteralList.references : (ns : List Node) → LiteralList ns → referencesOfList ns = []
  | [], _ => rfl
  | n :: ns, h => by
    rw [referencesOfList, Literal.references n h.1, LiteralList.references ns h.2, List.append_nil]
end

mutual
theorem Literal.proper : (n : Node) → n.Literal → n.Proper
  | literal .., _ => trivial
  | element _ cs, h => ⟨h.1, LiteralList.proper cs h.2.2⟩

theorem LiteralList.proper : (ns : List Node) → LiteralList ns → ProperList ns
  | [], _ => trivial
  | n :: ns, h => ⟨Literal.proper n h.1, LiteralList.proper ns h.2⟩
end

theorem not_mem_foreign {attrs : List Attribute} (h : ∀ a ∈ attrs, a.isFixed = true) : Attribute.foreign ∉ attrs :=
  fun hmem => Bool.false_ne_true (h _ hmem)

mutual
theorem Literal.hasForeign : (n : Node) → n.Literal → n.hasForeign = false
  | literal .., _ => rfl
  | element t cs, h => by
    have hknown : t.attrs.contains .foreign = false := by simpa using not_mem_foreign h.2.1
    rw [Node.hasForeign, hknown, LiteralList.anyForeign cs h.2.2, Bool.or_false]

theorem LiteralList.anyForeign : (ns : List Node) → LiteralList ns → anyForeign ns = false
  | [], _ => rfl
  | n :: ns, h => by
    rw [Node.anyForeign, Literal.hasForeign n h.1, LiteralList.anyForeign ns h.2, Bool.or_false]
end

theorem literalList_iff {ns : List Node} : LiteralList ns ↔ ∀ n ∈ ns, n.Literal := by
  induction ns with
  | nil => simp [LiteralList]
  | cons n ns ih => rw [LiteralList, ih, List.forall_mem_cons]

end Stencil.Node
