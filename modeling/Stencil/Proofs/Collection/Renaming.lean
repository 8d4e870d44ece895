import Stencil.Proofs.Assoc
import Stencil.Proofs.Node.Own
import Stencil.Registry.Renaming

namespace Stencil.NameMap

open Node

variable (names : NameMap)

theorem reference?_renameAttribute (a : Attribute) :
    (names.renameAttribute a).reference? = a.reference?.map names.renameReference := by
  cases a <;> rfl

mutual
theorem ownReferences_renameNode :
    (n : Node) → (names.renameNode n).ownReferences = n.ownReferences.map names.renameReference
  | .literal .. => rfl
  | .slot .. => rfl
  | .content => rfl
  | .foreign => rfl
  | .block .. => rfl
  | .element t cs => by
    have ha : (t.attrs.map names.renameAttribute).filterMap Attribute.reference? =
        (t.attrs.filterMap Attribute.reference?).map names.renameReference := by
      simp only [List.filterMap_map, List.map_filterMap, Function.comp_def, reference?_renameAttribute]
    rw [renameNode, ownReferences, ownReferences, ha, ownReferences_renameNodes cs, List.map_append]

theorem ownReferences_renameNodes : (ns : List Node) →
    ownReferencesOfList (names.renameNodes ns) = (ownReferencesOfList ns).map names.renameReference
  | [] => rfl
  | n :: ns => by
    rw [renameNodes, ownReferencesOfList, ownReferencesOfList, ownReferences_renameNode n,
      ownReferences_renameNodes ns, List.map_append]
end

variable {names}

theorem mem_keys_renameFields {scope : Scope} {acc fields : Fields} {k : String} :
    k ∈ Assoc.keys (names.renameFields scope acc fields) ↔
      k ∈ Assoc.keys acc ∨ ∃ j ∈ Assoc.keys fields, names.nameOf scope j = k := by
  induction fields generalizing acc with
  | nil => simp [renameFields]
  | cons e fields ih =>
    obtain ⟨j, v⟩ := e
    rw [renameFields, ih, Assoc.mem_keys_set, Assoc.keys_cons]
    simp only [List.mem_cons, exists_eq_or_imp]
    constructor
    · rintro ((rfl | h) | h)
      · exact .inr (.inl rfl)
      · exact .inl h
      · exact .inr (.inr h)
    · rintro (h | rfl | h)
      · exact .inl (.inr h)
      · exact .inl (.inl rfl)
      · exact .inr h

theorem mem_keys_renameRecord {ns : List Node} {fields : Fields}
    (hroot : ∀ r ∈ ownReferencesOfList ns, r.Direct [])
    (h : ∀ k ∈ slots ns, k ∈ Assoc.keys fields) :
    ∀ k ∈ slots (names.renameNodes ns), k ∈ Assoc.keys (names.renameRecord [] fields) := by
  intro k hk
  rw [slots, ownReferences_renameNodes, List.map_map] at hk
  obtain ⟨r, hr, rfl⟩ := List.mem_map.mp hk
  obtain ⟨j, rfl⟩ := hroot r hr
  exact mem_keys_renameFields.mpr (.inr ⟨j, h j (List.mem_map.mpr ⟨_, hr, rfl⟩), rfl⟩)

end Stencil.NameMap
