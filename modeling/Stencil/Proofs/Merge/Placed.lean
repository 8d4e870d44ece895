import Mathlib.Data.List.GetD
import Stencil.Proofs.Merge.Writes
import Stencil.Proofs.Node.Own

namespace Stencil

namespace Merge

open Node

abbrev BlockProperty := BlockKind → Reference → Node → Prop

structure Placed (Q : BlockProperty) (chain : Scope) (ns : List Node) : Prop where
  own : ∀ r ∈ ownReferencesOfList ns, r.Own chain
  blocks : ∀ b ∈ ownBlocksOfList ns, Q b.1 b.2.1 b.2.2

namespace Placed

variable {Q : BlockProperty} {chain : Scope} {as bs ns : List Node} {key : String}

theorem append_iff : Placed Q chain (as ++ bs) ↔ Placed Q chain as ∧ Placed Q chain bs := by
  constructor
  · intro h
    refine ⟨⟨fun r hr => h.own r ?_, fun b hb => h.blocks b ?_⟩,
      ⟨fun r hr => h.own r ?_, fun b hb => h.blocks b ?_⟩⟩
    · rw [ownReferencesOfList_append]; exact List.mem_append_left _ hr
    · rw [ownBlocksOfList_append]; exact List.mem_append_left _ hb
    · rw [ownReferencesOfList_append]; exact List.mem_append_right _ hr
    · rw [ownBlocksOfList_append]; exact List.mem_append_right _ hb
  · rintro ⟨ha, hb⟩
    refine ⟨fun r hr => ?_, fun b hm => ?_⟩
    · rw [ownReferencesOfList_append, List.mem_append] at hr
      exact hr.elim (ha.own r) (hb.own r)
    · rw [ownBlocksOfList_append, List.mem_append] at hm
      exact hm.elim (ha.blocks b) (hb.blocks b)

theorem of_references_nil (h : referencesOfList ns = []) : Placed Q chain ns := by
  obtain ⟨hr, hb⟩ := own_of_referencesOfList_nil ns h
  exact ⟨by simp [hr], by simp [hb]⟩

theorem slot {kind : SlotKind} (hk : Key.Normal key) :
    Placed Q chain [.slot kind (chain ++ [key])] := by
  refine ⟨fun r hr => ⟨key, hk, ?_⟩, by simp [ownBlocksOfList, ownBlocks]⟩
  simpa [ownReferencesOfList, ownReferences] using hr

theorem block {kind : BlockKind} {template : Node} (hk : Key.Normal key)
    (hq : Q kind (chain ++ [key]) template) :
    Placed Q chain [.block kind (chain ++ [key]) template] := by
  refine ⟨fun r hr => ⟨key, hk, ?_⟩, fun b hb => ?_⟩
  · simpa [ownReferencesOfList, ownReferences] using hr
  · simp only [ownBlocksOfList, ownBlocks, List.append_nil, List.mem_singleton] at hb
    rw [hb]
    exact hq

theorem of_slot {kind : SlotKind} {r : Reference} (h : Placed Q chain [.slot kind r]) :
    r.Own chain :=
  h.own r (by simp [ownReferencesOfList, ownReferences])

theorem of_block {kind : BlockKind} {r : Reference} {template : Node}
    (h : Placed Q chain [.block kind r template]) : r.Own chain ∧ Q kind r template :=
  ⟨h.own r (by simp [ownReferencesOfList, ownReferences]),
    h.blocks (kind, r, template) (by simp [ownBlocksOfList, ownBlocks])⟩

theorem element_iff {tag : Tag} :
    Placed Q chain [.element tag ns] ↔ Placed Q chain (attributeSlots tag.attrs ++ ns) := by
  obtain ⟨hr, hb⟩ := own_element tag ns
  constructor
  · intro h
    exact ⟨hr ▸ h.own, hb ▸ h.blocks⟩
  · intro h
    exact ⟨hr.symm ▸ h.own, hb.symm ▸ h.blocks⟩

theorem of_subset (h : Placed Q chain bs) (hsub : ∀ n ∈ as, n ∈ bs) : Placed Q chain as := by
  refine ⟨fun r hr => h.own r ?_, fun b hb => h.blocks b ?_⟩
  · rw [ownReferencesOfList_eq, List.mem_flatMap] at hr ⊢
    obtain ⟨n, hn, hr⟩ := hr
    exact ⟨n, hsub n hn, hr⟩
  · rw [ownBlocksOfList_eq, List.mem_flatMap] at hb ⊢
    obtain ⟨n, hn, hb⟩ := hb
    exact ⟨n, hsub n hn, hb⟩

end Placed

structure Closed (merge : NodeMerger) (Q : BlockProperty) : Prop where
  inside : ∀ {kind r template}, Q kind r template → ∀ q ∈ template.references, q.Inside r
  loop : ∀ {r template}, template.Within r → Q .loop r template
  wrapped : ∀ {chain n key}, Placed Q chain [n] →
    Q .conditional (chain ++ [key]) (n.insertKey chain.length key)
  merged : ∀ {kind r template b around n s t}, Q kind r template → b.references = [] →
    Returns (merge r around template b) s n t → Q kind r n

variable {Q : BlockProperty} {α : Type} [Grade α] {merge : NodeMerger} {chain : Scope}
  {around : Around} {side : Side} {s t u : MergeState}

theorem Placed.top_mem_slots
    (hq : ∀ {kind r template}, Q kind r template → ∀ q ∈ template.references, q.Inside r)
    {ns : List Node} (h : Placed Q chain ns) {r : Reference} (hr : r ∈ referencesOfList ns) :
    r.Inside chain ∧ Key.normalize (r.getD chain.length "") ∈ slots ns := by
  have top {k : String} (rest : List String) (hk : Key.Normal k)
      (hmem : chain ++ [k] ∈ ownReferencesOfList ns) :
      Reference.Inside chain (chain ++ k :: rest) ∧
        Key.normalize ((chain ++ k :: rest).getD chain.length "") ∈ slots ns := by
    refine ⟨⟨k, rest, rfl⟩, List.mem_map.mpr ⟨_, hmem, ?_⟩⟩
    rw [Reference.key_append, List.getD_append_right _ _ _ _ (Nat.le_refl _)]
    rw [Nat.sub_self, List.getD_cons_zero, hk]
  rcases own_of_mem_referencesOfList ns hr with hown | ⟨⟨kind, q, template⟩, hb, hin⟩
  · obtain ⟨k, hk, rfl⟩ := h.own r hown
    exact top [] hk hown
  · have hown := own_of_mem_ownBlocksOfList ns hb
    obtain ⟨k, hk, rfl⟩ := h.own _ hown
    obtain ⟨j, rest, rfl⟩ := hq (h.blocks _ hb) r hin
    rw [List.append_assoc]
    exact top (j :: rest) hk hown

theorem Placed.within
    (hq : ∀ {kind r template}, Q kind r template → ∀ q ∈ template.references, q.Inside r)
    {ns : List Node} (h : Placed Q chain ns) {n : Node} (hn : n ∈ ns) : n.Within chain where
  inside r hr := (h.top_mem_slots hq (mem_referencesOfList.mpr ⟨n, hn, hr⟩)).1
  flat hb r hr := by
    rcases own_of_mem_references n hr with hown | ⟨b, hmem, -⟩
    · have hown : r ∈ ownReferencesOfList ns := by
        rw [ownReferencesOfList_eq, List.mem_flatMap]
        exact ⟨n, hn, hown⟩
      obtain ⟨k, -, hk⟩ := h.own r hown
      exact ⟨k, hk⟩
    · simp [ownBlocks_of_hasBlock n hb] at hmem

def Settles (Q : BlockProperty) (chain : Scope) (old new : List Node) (s t : MergeState) : Prop :=
  Placed Q chain old → Placed Q chain new ∧ Writes (slots old) (slots new) s t

namespace Settles

variable {old new old' new' : List Node} {key : String} {v w : Value}

theorem append (h : Settles Q chain old new s u) (g : Settles Q chain old' new' u t) :
    Settles Q chain (old ++ old') (new ++ new') s t := by
  intro hp
  obtain ⟨ho, ho'⟩ := Placed.append_iff.mp hp
  obtain ⟨hn, hw⟩ := h ho
  obtain ⟨hn', hw'⟩ := g ho'
  rw [slots_append, slots_append]
  exact ⟨Placed.append_iff.mpr ⟨hn, hn'⟩, hw.append hw'⟩

theorem before (h : Settles Q chain old new u t) (g : Quiet s u) : Settles Q chain old new s t :=
  fun hp => ⟨(h hp).1, (h hp).2.before g⟩

theorem opens {kind : SlotKind} (h : Opens chain side key v w s t) :
    Settles Q chain old [.slot kind (chain ++ [key])] s t := by
  intro _
  have hwrites : Writes (slots old) [key] s t := (Writes.opens h).of_subset (by simp)
  refine ⟨.slot h.normal, ?_⟩
  rwa [slots_slot, Reference.key_append]

theorem quiet (hn : referencesOfList new = []) (h : Quiet s t) : Settles Q chain old new s t := by
  intro _
  refine ⟨.of_references_nil hn, ?_⟩
  rw [slots, slots, (own_of_referencesOfList_nil new hn).1]
  exact (Writes.ofFields h.fields).of_subset (by simp)

theorem readSlot {kind : SlotKind} {r : Reference} (hmem : .slot kind r ∈ old)
    (h : Reads .right r.key v s t) : Settles Q chain old [.slot kind r] s t := by
  intro hp
  have hown : r ∈ ownReferencesOfList old := by
    rw [ownReferencesOfList_eq, List.mem_flatMap]
    exact ⟨_, hmem, List.mem_singleton_self _⟩
  obtain ⟨k, hk, rfl⟩ := hp.own r hown
  rw [Reference.key_append] at h
  have hk' : k ∈ slots old := List.mem_map.mpr ⟨_, hown, Reference.key_append ..⟩
  have hwrites : Writes (slots old) [k] s t := (Writes.readRight hk h).of_subset (by simpa using hk')
  refine ⟨.slot hk, ?_⟩
  rwa [slots_slot, Reference.key_append]

end Settles

end Merge

end Stencil
