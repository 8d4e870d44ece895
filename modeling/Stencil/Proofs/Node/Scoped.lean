import Stencil.Proofs.Node.Scope

namespace Stencil

theorem Reference.direct_iff {chain : Scope} {r : Reference} :
    r.Direct chain ↔ r = chain ++ [r.key] := by
  constructor
  · rintro ⟨k, rfl⟩
    rw [key_append]
  · exact fun h => ⟨_, h⟩

instance (chain : Scope) (r : Reference) : Decidable (r.Direct chain) :=
  decidable_of_iff _ Reference.direct_iff.symm

namespace Node

mutual
def Scoped (chain : Scope) : Node → Prop
  | element t cs => (∀ r ∈ t.attrs.filterMap Attribute.reference?, r.Direct chain) ∧
      ScopedList chain cs
  | slot _ r => r.Direct chain
  | block _ r t => r.Direct chain ∧ Scoped r t
  | _ => True

def ScopedList (chain : Scope) : List Node → Prop
  | [] => True
  | n :: rest => Scoped chain n ∧ ScopedList chain rest
end

mutual
def decidableScoped (chain : Scope) : (n : Node) → Decidable (Scoped chain n)
  | element _ cs =>
    haveI := decidableScopedList chain cs
    inferInstanceAs (Decidable (_ ∧ ScopedList chain cs))
  | slot _ r => inferInstanceAs (Decidable (r.Direct chain))
  | block _ r t =>
    haveI := decidableScoped r t
    inferInstanceAs (Decidable (_ ∧ Scoped r t))
  | literal .. => isTrue trivial
  | content => isTrue trivial
  | foreign => isTrue trivial

def decidableScopedList (chain : Scope) : (ns : List Node) → Decidable (ScopedList chain ns)
  | [] => isTrue trivial
  | n :: rest =>
    haveI := decidableScoped chain n
    haveI := decidableScopedList chain rest
    inferInstanceAs (Decidable (Scoped chain n ∧ ScopedList chain rest))
end

instance (chain : Scope) (ns : List Node) : Decidable (ScopedList chain ns) :=
  decidableScopedList chain ns

mutual
theorem scoped_of_hasBlock {chain : Scope} : (n : Node) → n.hasBlock = false →
    (∀ r ∈ n.references, r.Direct chain) → n.Scoped chain
  | literal .., _, _ => trivial
  | slot _ r, _, h => h r (by simp [references])
  | content, _, _ => trivial
  | foreign, _, _ => trivial
  | block .., hb, _ => by simp [hasBlock] at hb
  | element _ cs, hb, h => ⟨fun r hr => h r (List.mem_append_left _ hr),
      scopedList_of_anyBlock cs hb fun r hr => h r (List.mem_append_right _ hr)⟩

theorem scopedList_of_anyBlock {chain : Scope} : (ns : List Node) → anyBlock ns = false →
    (∀ r ∈ referencesOfList ns, r.Direct chain) → ScopedList chain ns
  | [], _, _ => trivial
  | n :: ns, hb, h => by
    rw [anyBlock, Bool.or_eq_false_iff] at hb
    exact ⟨scoped_of_hasBlock n hb.1 fun r hr => h r (List.mem_append_left _ hr),
      scopedList_of_anyBlock ns hb.2 fun r hr => h r (List.mem_append_right _ hr)⟩
end

mutual
def outerLoops : Node → List (Reference × Node)
  | element _ cs => outerLoopsOfList cs
  | block .conditional _ t => outerLoops t
  | block .loop r t => [(r, t)]
  | _ => []

def outerLoopsOfList : List Node → List (Reference × Node)
  | [] => []
  | n :: rest => outerLoops n ++ outerLoopsOfList rest
end

end Node

end Stencil
