import Stencil.Proofs.Node.Kind
import Stencil.Merge.Loop

namespace Stencil.Node

variable {p q : LiteralKind → String → Prop}

mutual
def LiteralsIn (p : LiteralKind → String → Prop) : Node → Prop
  | literal k v => p k v
  | element _ cs => AllLiteralsIn p cs
  | block _ _ t => LiteralsIn p t
  | _ => True

def AllLiteralsIn (p : LiteralKind → String → Prop) : List Node → Prop
  | [] => True
  | n :: rest => LiteralsIn p n ∧ AllLiteralsIn p rest
end

theorem literalsIn_block {k : BlockKind} {r : Reference} {t : Node} :
    (block k r t).LiteralsIn p ↔ t.LiteralsIn p := Iff.rfl

theorem allLiteralsIn_iff {ns : List Node} : AllLiteralsIn p ns ↔ ∀ n ∈ ns, n.LiteralsIn p := by
  induction ns with
  | nil => simp [AllLiteralsIn]
  | cons n ns ih => rw [AllLiteralsIn, ih, List.forall_mem_cons]

mutual
theorem LiteralsIn.mono (hpq : ∀ {k v}, p k v → q k v) : (n : Node) → n.LiteralsIn p → n.LiteralsIn q
  | literal .., h => hpq h
  | element _ cs, h => AllLiteralsIn.mono hpq cs h
  | block _ _ t, h => LiteralsIn.mono hpq t h
  | slot .., _ | content, _ | foreign, _ => trivial

theorem AllLiteralsIn.mono (hpq : ∀ {k v}, p k v → q k v) :
    (ns : List Node) → AllLiteralsIn p ns → AllLiteralsIn q ns
  | [], _ => trivial
  | n :: ns, h => ⟨LiteralsIn.mono hpq n h.1, AllLiteralsIn.mono hpq ns h.2⟩
end

mutual
theorem LiteralsIn.insertKey (depth : Nat) (key : String) :
    (n : Node) → n.LiteralsIn p → (n.insertKey depth key).LiteralsIn p
  | literal .., h => h
  | element _ cs, h => AllLiteralsIn.insertKeys depth key cs h
  | block _ _ t, h => LiteralsIn.insertKey depth key t h
  | slot .., _ | content, _ | foreign, _ => trivial

theorem AllLiteralsIn.insertKeys (depth : Nat) (key : String) :
    (ns : List Node) → AllLiteralsIn p ns → AllLiteralsIn p (insertKeys depth key ns)
  | [], _ => trivial
  | n :: ns, h => ⟨LiteralsIn.insertKey depth key n h.1, AllLiteralsIn.insertKeys depth key ns h.2⟩
end

end Stencil.Node
