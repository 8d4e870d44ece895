import Stencil.Proofs.Node.Scope
import Stencil.Proofs.Registry

namespace Stencil

namespace Reference

theorem insertKey_concat {depth : Nat} {scope : Scope} (key last : String) (h : depth ≤ scope.length) :
    insertKey depth key (scope ++ [last]) = insertKey depth key scope ++ [last] := by
  simp only [insertKey, List.take_append_of_le_length h, List.drop_append_of_le_length h,
    List.append_assoc]

end Reference

namespace Registry

variable {g g' g'' : Registry} {ins ins' outs outs' : List Reference} {r : Reference} {scope : Scope}
  {key : String}

theorem has_iff : g.has scope key = true ↔ key ∈ g.keys scope := by
  unfold has
  constructor
  · intro h
    obtain ⟨e, he⟩ := Option.isSome_iff_exists.mp h
    exact (entry?_key he).2
  · intro h
    obtain ⟨e, he⟩ := entry?_of_mem_keys h
    rw [he]
    rfl

def Knows (g : Registry) (r : Reference) : Prop :=
  ∀ ⦃scope key⦄, r = scope ++ [key] → key ∈ g.keys scope

theorem knows_concat : g.Knows (scope ++ [key]) ↔ key ∈ g.keys scope := by
  constructor
  · intro h
    exact h rfl
  · intro h scope' key' he
    obtain ⟨rfl, hk⟩ := List.append_inj' he rfl
    cases hk
    exact h

def Grows (g g' : Registry) : Prop :=
  ∀ c, ∀ k ∈ g.keys c, k ∈ g'.keys c

theorem Grows.refl (g : Registry) : Grows g g :=
  fun _ _ h => h

theorem Grows.trans (h : Grows g g') (h' : Grows g' g'') : Grows g g'' :=
  fun c k hk => h' c k (h c k hk)

theorem Grows.knows (h : Grows g g') (hr : g.Knows r) : g'.Knows r :=
  fun c k he => h c k (hr he)

/-- A tree with the first references becomes one with the second; all the while nothing is forgotten and
what is new is entered. -/
structure Learns (ins outs : List Reference) (g g' : Registry) : Prop where
  grows : Grows g g'
  knows : (∀ r ∈ ins, g.Knows r) → ∀ r ∈ outs, g'.Knows r

theorem Learns.refl (refs : List Reference) (g : Registry) : Learns refs refs g g :=
  ⟨.refl g, fun h => h⟩

theorem Learns.mono (h : Learns ins outs g g') (hins : ∀ r ∈ ins, r ∈ ins')
    (houts : ∀ r ∈ outs', r ∈ outs ∨ r ∈ ins') : Learns ins' outs' g g' where
  grows := h.grows
  knows hk r hr := by
    rcases houts r hr with hr | hr
    · exact h.knows (fun q hq => hk q (hins q hq)) r hr
    · exact h.grows.knows (hk r hr)

theorem Learns.append (h : Learns ins outs g g') (h' : Learns ins' outs' g' g'') :
    Learns (ins ++ ins') (outs ++ outs') g g'' where
  grows := h.grows.trans h'.grows
  knows hk r hr := by
    rw [List.forall_mem_append] at hk
    rcases List.mem_append.mp hr with hr | hr
    · exact h'.grows.knows (h.knows hk.1 r hr)
    · exact h'.knows (fun q hq => h.grows.knows (hk.2 q hq)) r hr

theorem learns_record (g : Registry) (scope : Scope) (key : String) (kind : Variation)
    (source : Option Tag) (attr : Option String) :
    Learns [] [scope ++ [key]] g (g.record scope key kind source attr) where
  grows _ _ hk := mem_keys_record.mpr (.inr hk)
  knows _ r hr := by
    rw [List.mem_singleton.mp hr, knows_concat]
    exact mem_keys_record.mpr (.inl ⟨rfl, rfl⟩)

end Registry

end Stencil
