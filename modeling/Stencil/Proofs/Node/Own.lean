import Stencil.Proofs.Node.Scope

namespace Stencil.Node

mutual
def ownReferences : Node → List Reference
  | element t cs => t.attrs.filterMap Attribute.reference? ++ ownReferencesOfList cs
  | slot _ r => [r]
  | block _ r _ => [r]
  | _ => []

def ownReferencesOfList : List Node → List Reference
  | [] => []
  | n :: rest => ownReferences n ++ ownReferencesOfList rest
end

mutual
def ownBlocks : Node → List (BlockKind × Reference × Node)
  | element _ cs => ownBlocksOfList cs
  | block k r t => [(k, r, t)]
  | _ => []

def ownBlocksOfList : List Node → List (BlockKind × Reference × Node)
  | [] => []
  | n :: rest => ownBlocks n ++ ownBlocksOfList rest
end

def slots (ns : List Node) : List String :=
  (ownReferencesOfList ns).map Reference.key

@[simp]
theorem slots_slot (kind : SlotKind) (r : Reference) : slots [slot kind r] = [r.key] := rfl

@[simp]
theorem slots_block (kind : BlockKind) (r : Reference) (template : Node) :
    slots [block kind r template] = [r.key] := rfl

theorem ownReferencesOfList_eq (ns : List Node) :
    ownReferencesOfList ns = ns.flatMap ownReferences := by
  induction ns with
  | nil => rfl
  | cons n ns ih => rw [ownReferencesOfList, ih, List.flatMap_cons]

theorem ownBlocksOfList_eq (ns : List Node) : ownBlocksOfList ns = ns.flatMap ownBlocks := by
  induction ns with
  | nil => rfl
  | cons n ns ih => rw [ownBlocksOfList, ih, List.flatMap_cons]

theorem ownReferencesOfList_append (as bs : List Node) :
    ownReferencesOfList (as ++ bs) = ownReferencesOfList as ++ ownReferencesOfList bs := by
  simp only [ownReferencesOfList_eq, List.flatMap_append]

theorem ownBlocksOfList_append (as bs : List Node) :
    ownBlocksOfList (as ++ bs) = ownBlocksOfList as ++ ownBlocksOfList bs := by
  simp only [ownBlocksOfList_eq, List.flatMap_append]

theorem slots_append (as bs : List Node) : slots (as ++ bs) = slots as ++ slots bs := by
  rw [slots, ownReferencesOfList_append, List.map_append]
  rfl

mutual
theorem ownReferences_insertKey (depth : Nat) (key : String) : (n : Node) →
    (n.insertKey depth key).ownReferences = n.ownReferences.map (Reference.insertKey depth key)
  | literal .. => rfl
  | slot .. => rfl
  | content => rfl
  | foreign => rfl
  | block .. => rfl
  | element t cs => by
    rw [insertKey, ownReferences, ownReferences, filterMap_insertKey,
      ownReferencesOfList_insertKeys depth key cs, List.map_append]

theorem ownReferencesOfList_insertKeys (depth : Nat) (key : String) : (ns : List Node) →
    ownReferencesOfList (insertKeys depth key ns) =
      (ownReferencesOfList ns).map (Reference.insertKey depth key)
  | [] => rfl
  | n :: ns => by
    rw [insertKeys, ownReferencesOfList, ownReferencesOfList, ownReferences_insertKey depth key n,
      ownReferencesOfList_insertKeys depth key ns, List.map_append]
end

mutual
theorem ownBlocks_insertKey (depth : Nat) (key : String) : (n : Node) →
    (n.insertKey depth key).ownBlocks = n.ownBlocks.map fun b =>
      (b.1, Reference.insertKey depth key b.2.1, b.2.2.insertKey depth key)
  | literal .. => rfl
  | slot .. => rfl
  | content => rfl
  | foreign => rfl
  | block .. => rfl
  | element _ cs => ownBlocksOfList_insertKeys depth key cs

theorem ownBlocksOfList_insertKeys (depth : Nat) (key : String) : (ns : List Node) →
    ownBlocksOfList (insertKeys depth key ns) = (ownBlocksOfList ns).map fun b =>
      (b.1, Reference.insertKey depth key b.2.1, b.2.2.insertKey depth key)
  | [] => rfl
  | n :: ns => by
    rw [insertKeys, ownBlocksOfList, ownBlocksOfList, ownBlocks_insertKey depth key n,
      ownBlocksOfList_insertKeys depth key ns, List.map_append]
end

mutual
theorem own_of_mem_ownBlocks : (n : Node) → {b : BlockKind × Reference × Node} →
    b ∈ n.ownBlocks → b.2.1 ∈ n.ownReferences
  | literal .., _, h => by simp [ownBlocks] at h
  | slot .., _, h => by simp [ownBlocks] at h
  | content, _, h => by simp [ownBlocks] at h
  | foreign, _, h => by simp [ownBlocks] at h
  | block .., _, h => by
    rw [List.mem_singleton.mp h]
    exact List.mem_singleton_self _
  | element _ cs, _, h => List.mem_append_right _ (own_of_mem_ownBlocksOfList cs h)

theorem own_of_mem_ownBlocksOfList : (ns : List Node) → {b : BlockKind × Reference × Node} →
    b ∈ ownBlocksOfList ns → b.2.1 ∈ ownReferencesOfList ns
  | [], _, h => by simp [ownBlocksOfList] at h
  | n :: ns, _, h => by
    rcases List.mem_append.mp h with h | h
    · exact List.mem_append_left _ (own_of_mem_ownBlocks n h)
    · exact List.mem_append_right _ (own_of_mem_ownBlocksOfList ns h)
end

mutual
theorem ownReferences_subset : (n : Node) → {r : Reference} → r ∈ n.ownReferences →
    r ∈ n.references
  | literal .., _, h => h
  | slot .., _, h => h
  | content, _, h => h
  | foreign, _, h => h
  | block .., _, h => by
    rw [List.mem_singleton.mp h]
    exact List.mem_cons_self ..
  | element _ cs, _, h => List.mem_append.mpr
      ((List.mem_append.mp h).imp_right (ownReferencesOfList_subset cs))

theorem ownReferencesOfList_subset : (ns : List Node) → {r : Reference} →
    r ∈ ownReferencesOfList ns → r ∈ referencesOfList ns
  | [], _, h => h
  | n :: ns, _, h => List.mem_append.mpr
      ((List.mem_append.mp h).imp (ownReferences_subset n) (ownReferencesOfList_subset ns))
end

mutual
theorem ownBlocks_of_hasBlock : (n : Node) → n.hasBlock = false → n.ownBlocks = []
  | literal .., _ => rfl
  | slot .., _ => rfl
  | content, _ => rfl
  | foreign, _ => rfl
  | block .., h => by simp [hasBlock] at h
  | element _ cs, h => ownBlocksOfList_of_anyBlock cs h

theorem ownBlocksOfList_of_anyBlock : (ns : List Node) → anyBlock ns = false →
    ownBlocksOfList ns = []
  | [], _ => rfl
  | n :: ns, h => by
    rw [anyBlock, Bool.or_eq_false_iff] at h
    rw [ownBlocksOfList, ownBlocks_of_hasBlock n h.1, ownBlocksOfList_of_anyBlock ns h.2]
    rfl
end

def attributeSlots (attrs : List Attribute) : List Node :=
  (attrs.filterMap Attribute.reference?).map (slot .plain)

theorem attributeSlots_append (as bs : List Attribute) :
    attributeSlots (as ++ bs) = attributeSlots as ++ attributeSlots bs := by
  simp only [attributeSlots, List.filterMap_append, List.map_append]

theorem attributeSlots_cons (a : Attribute) (as : List Attribute) :
    attributeSlots (a :: as) = attributeSlots [a] ++ attributeSlots as :=
  attributeSlots_append [a] as

theorem attributeSlots_of_reference {a : Attribute} {r : Reference} (h : a.reference? = some r) :
    attributeSlots [a] = [slot .plain r] := by
  simp [attributeSlots, h]

theorem own_attributeSlots (attrs : List Attribute) :
    ownReferencesOfList (attributeSlots attrs) = attrs.filterMap Attribute.reference? ∧
      ownBlocksOfList (attributeSlots attrs) = [] := by
  unfold attributeSlots
  induction attrs.filterMap Attribute.reference? with
  | nil => exact ⟨rfl, rfl⟩
  | cons r refs ih =>
    rw [List.map_cons, ownReferencesOfList, ownBlocksOfList, ih.1, ih.2]
    exact ⟨rfl, rfl⟩

theorem referencesOfList_attributeSlots (attrs : List Attribute) :
    referencesOfList (attributeSlots attrs) = attrs.filterMap Attribute.reference? := by
  simp [attributeSlots, referencesOfList_eq, List.flatMap_map, references]

theorem own_element (tag : Tag) (cs : List Node) :
    ownReferencesOfList [element tag cs] = ownReferencesOfList (attributeSlots tag.attrs ++ cs) ∧
      ownBlocksOfList [element tag cs] = ownBlocksOfList (attributeSlots tag.attrs ++ cs) := by
  rw [ownReferencesOfList_append, ownBlocksOfList_append, (own_attributeSlots _).1,
    (own_attributeSlots _).2]
  simp [ownReferencesOfList, ownReferences, ownBlocksOfList, ownBlocks]

mutual
theorem own_of_mem_references : (n : Node) → {r : Reference} → r ∈ n.references →
    r ∈ n.ownReferences ∨ ∃ b ∈ n.ownBlocks, r ∈ b.2.2.references
  | literal .., _, h => .inl h
  | slot .., _, h => .inl h
  | content, _, h => .inl h
  | foreign, _, h => .inl h
  | block k q t, r, h => by
    rcases List.mem_cons.mp h with rfl | h
    · exact .inl (List.mem_singleton_self _)
    · exact .inr ⟨(k, q, t), List.mem_singleton_self _, h⟩
  | element t cs, r, h => by
    rcases List.mem_append.mp h with h | h
    · exact .inl (List.mem_append_left _ h)
    · rcases own_of_mem_referencesOfList cs h with h | h
      · exact .inl (List.mem_append_right _ h)
      · exact .inr h

theorem own_of_mem_referencesOfList : (ns : List Node) → {r : Reference} →
    r ∈ referencesOfList ns →
    r ∈ ownReferencesOfList ns ∨ ∃ b ∈ ownBlocksOfList ns, r ∈ b.2.2.references
  | [], _, h => .inl h
  | n :: ns, r, h => by
    rcases List.mem_append.mp h with h | h
    · rcases own_of_mem_references n h with h | ⟨b, hb, h⟩
      · exact .inl (List.mem_append_left _ h)
      · exact .inr ⟨b, List.mem_append_left _ hb, h⟩
    · rcases own_of_mem_referencesOfList ns h with h | ⟨b, hb, h⟩
      · exact .inl (List.mem_append_right _ h)
      · exact .inr ⟨b, List.mem_append_right _ hb, h⟩
end

mutual
theorem own_of_references_nil : (n : Node) → n.references = [] →
    n.ownReferences = [] ∧ n.ownBlocks = []
  | literal .., _ => ⟨rfl, rfl⟩
  | slot .., h => by simp [references] at h
  | content, _ => ⟨rfl, rfl⟩
  | foreign, _ => ⟨rfl, rfl⟩
  | block .., h => by simp [references] at h
  | element t cs, h => by
    obtain ⟨ha, hcs⟩ := List.append_eq_nil_iff.mp h
    obtain ⟨hrefs, hblocks⟩ := own_of_referencesOfList_nil cs hcs
    exact ⟨by rw [ownReferences, ha, hrefs]; rfl, hblocks⟩

theorem own_of_referencesOfList_nil : (ns : List Node) → referencesOfList ns = [] →
    ownReferencesOfList ns = [] ∧ ownBlocksOfList ns = []
  | [], _ => ⟨rfl, rfl⟩
  | n :: ns, h => by
    obtain ⟨hn, hns⟩ := List.append_eq_nil_iff.mp h
    obtain ⟨hr, hb⟩ := own_of_references_nil n hn
    obtain ⟨hrs, hbs⟩ := own_of_referencesOfList_nil ns hns
    exact ⟨by rw [ownReferencesOfList, hr, hrs]; rfl, by rw [ownBlocksOfList, hb, hbs]; rfl⟩
end

end Stencil.Node
