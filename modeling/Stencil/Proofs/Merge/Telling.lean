import Stencil.Proofs.Merge.Scoping

namespace Stencil.Merge

open Node

def Known (registry : Registry) (ns : List Node) : Prop :=
  ∀ r ∈ referencesOfList ns, Reference.key r ∈ registry.keys r.dropLast

theorem known_append {registry : Registry} {as bs : List Node} :
    Known registry (as ++ bs) ↔ Known registry as ∧ Known registry bs := by
  unfold Known
  rw [referencesOfList_append]
  exact List.forall_mem_append

/-- The slots of one part of a layout become those of another, and whatever the page holds elsewhere, its
values in them make `claim` hold. -/
structure Told (chain : Scope) (old new : List Node) (claim : Fields → Prop)
    (s t : MergeState) : Prop where
  grows : ∀ c, ∀ k ∈ s.registry.keys c, k ∈ t.registry.keys c
  fresh : ∀ k ∈ slots new, k ∈ slots old ∨ k ∉ s.registry.keys chain ∧ k ∉ Assoc.keys s.right
  nodup : (slots new).Nodup
  known : Known t.registry new
  written : ∀ k ∈ slots new, k ∈ Assoc.keys t.right
  frame : ∀ k ∉ slots new, t.right.lookup k = s.right.lookup k
  told : ∀ fields : Fields, (∀ k ∈ slots new, fields.lookup k = t.right.lookup k) → claim fields

def Tells (chain : Scope) (old new : List Node) (claim : Fields → Prop) (s t : MergeState) : Prop :=
  Placed Tied chain old → (slots old).Nodup → Known s.registry old → Told chain old new claim s t

variable {chain : Scope} {old new old' new' : List Node} {claim claim' : Fields → Prop}
  {key : String} {side : Side} {v w : Value} {s t u : MergeState}

theorem slot_known (hp : Placed Tied chain old) (hk : Known s.registry old) :
    ∀ k ∈ slots old, k ∈ s.registry.keys chain := by
  intro k hmem
  obtain ⟨r, hr, rfl⟩ := List.mem_map.mp hmem
  have hown := hk r (ownReferencesOfList_subset old hr)
  obtain ⟨k, -, rfl⟩ := hp.own r hr
  rwa [List.dropLast_concat] at hown

theorem Told.mem_keys_right (h : Told chain old new claim s t) {k : String} (hk : k ∉ slots new) :
    k ∈ Assoc.keys t.right ↔ k ∈ Assoc.keys s.right := by
  rw [← Assoc.lookup_isSome_iff, ← Assoc.lookup_isSome_iff, h.frame k hk]

theorem Told.parted (h : Told chain old new claim s u) (g : Told chain old' new' claim' u t)
    (hknown : ∀ k ∈ slots old', k ∈ s.registry.keys chain) (hdisjoint : ∀ k ∈ slots old, k ∉ slots old') :
    ∀ k ∈ slots new, k ∉ slots new' := by
  intro k hk hk'
  rcases g.fresh k hk' with hold' | ⟨-, hfree⟩
  · rcases h.fresh k hk with hold | ⟨hunknown, -⟩
    · exact hdisjoint k hold hold'
    · exact hunknown (hknown k hold')
  · exact hfree (h.written k hk)

namespace Tells

theorem mono (h : Tells chain old new claim s t) (hc : ∀ f, claim f → claim' f) :
    Tells chain old new claim' s t := by
  intro hp hn hk
  have h := h hp hn hk
  exact { h with told := fun fields hf => hc fields (h.told fields hf) }

theorem append (h : Tells chain old new claim s u) (g : Tells chain old' new' claim' u t) :
    Tells chain (old ++ old') (new ++ new') (fun f => claim f ∧ claim' f) s t := by
  intro hp hn hk
  obtain ⟨hp, hp'⟩ := Placed.append_iff.mp hp
  obtain ⟨hk, hk'⟩ := known_append.mp hk
  rw [slots_append] at hn
  obtain ⟨hn, hn', hdisjoint⟩ := List.nodup_append.mp hn
  have h := h hp hn hk
  have g := g hp' hn' fun r hr => h.grows _ _ (hk' r hr)
  -- the second part does not touch the slots of the first
  have hparted := h.parted g (slot_known hp' hk') fun k hold hold' => hdisjoint k hold k hold' rfl
  refine ⟨fun c k hm => g.grows c k (h.grows c k hm), fun k hm => ?_, ?_, ?_, fun k hm => ?_,
    fun k hm => ?_, fun fields hf => ?_⟩
  · rw [slots_append, List.mem_append] at hm ⊢
    rcases hm with hm | hm
    · exact (h.fresh k hm).imp_left .inl
    · rcases g.fresh k hm with hold | ⟨hunknown, hfree⟩
      · exact .inl (.inr hold)
      · have hno : k ∉ slots new := fun hm' => hparted k hm' hm
        exact .inr ⟨fun hkn => hunknown (h.grows _ _ hkn),
          fun hkeys => hfree ((h.mem_keys_right hno).mpr hkeys)⟩
  · rw [slots_append]
    exact List.nodup_append.mpr ⟨h.nodup, g.nodup, fun k hm j hj he => hparted k hm (he ▸ hj)⟩
  · exact known_append.mpr ⟨fun r hr => g.grows _ _ (h.known r hr), g.known⟩
  · rw [slots_append, List.mem_append] at hm
    rcases hm with hm | hm
    · exact (g.mem_keys_right (hparted k hm)).mpr (h.written k hm)
    · exact g.written k hm
  · rw [slots_append, List.mem_append, not_or] at hm
    rw [g.frame k hm.2, h.frame k hm.1]
  · constructor
    · refine h.told fields fun k hm => ?_
      rw [hf k (by rw [slots_append]; exact List.mem_append_left _ hm), g.frame k (hparted k hm)]
    · refine g.told fields fun k hm => ?_
      rw [hf k (by rw [slots_append]; exact List.mem_append_right _ hm)]

theorem before (h : Tells chain old new claim u t) (g : Quiet s u) : Tells chain old new claim s t := by
  intro hp hn hk
  have h := h hp hn (g.registry ▸ hk)
  exact {
    grows := g.registry ▸ h.grows
    fresh := by
      have hf := h.fresh
      rwa [g.registry, g.right] at hf
    nodup := h.nodup
    known := h.known
    written := h.written
    frame := g.right ▸ h.frame
    told := h.told }

theorem quiet (hn : referencesOfList new = []) (h : Quiet s t) (hc : ∀ f, claim f) :
    Tells chain old new claim s t := by
  intro _ _ _
  have hno : slots new = [] := by rw [slots, (own_of_referencesOfList_nil new hn).1]; rfl
  exact {
    grows := fun c k hk => h.registry.symm ▸ hk
    fresh := by simp [hno]
    nodup := by simp [hno]
    known := by simp [Known, hn]
    written := by simp [hno]
    frame := fun k _ => by rw [h.right]
    told := fun f _ => hc f }

theorem single {k : String} (hslots : slots new = [k]) (hright : t.right = Assoc.set k v s.right)
    (hgrows : ∀ c, ∀ j ∈ s.registry.keys c, j ∈ t.registry.keys c) (hknown : Known t.registry new)
    (hfresh : k ∈ slots old ∨ k ∉ s.registry.keys chain ∧ k ∉ Assoc.keys s.right)
    (hc : ∀ f : Fields, f.lookup k = some v → claim f) : Told chain old new claim s t where
  grows := hgrows
  fresh := by
    rw [hslots]
    simpa using hfresh
  nodup := by simp [hslots]
  known := hknown
  written := by
    rw [hslots, hright]
    simp [Assoc.mem_keys_set]
  frame j hj := by
    rw [hslots, List.mem_singleton] at hj
    rw [hright, Assoc.lookup_set_of_ne hj]
  told f hf := by
    apply hc
    rw [hf k (by simp [hslots]), hright, Assoc.lookup_set_self]

theorem opens {kind : SlotKind} (h : Opens chain side key v w s t) {x : Value}
    (hright : t.right = Assoc.set key x s.right) (hc : ∀ f : Fields, f.lookup key = some x → claim f) :
    Tells chain old [.slot kind (chain ++ [key])] claim s t := by
  intro _ _ _
  obtain ⟨_, _, _, hregistry⟩ := h.registry
  refine single (k := key) ?_ hright (fun c j hj => ?_) (fun r hr => ?_)
    (.inr ⟨h.unknown, h.free .right⟩) hc
  · simp [slots, ownReferencesOfList, ownReferences]
  · rw [hregistry, Registry.mem_keys_record]
    exact .inr hj
  · have hr : r = chain ++ [key] := by simpa [referencesOfList, references] using hr
    rw [hr, Reference.key_append, List.dropLast_concat, hregistry, Registry.mem_keys_record]
    exact .inl ⟨rfl, rfl⟩

theorem reads {n : Node} {r : Reference} (hr : n.ownReferences = [r])
    (h : Reads .right r.key v s t) (hc : ∀ f : Fields, f.lookup r.key = some v → claim f) :
    Tells chain [n] [n] claim s t := by
  intro hp _ hk
  have hown : ownReferencesOfList [n] = [r] := by simp [ownReferencesOfList, hr]
  have hslots : slots [n] = [r.key] := by rw [slots, hown]; rfl
  obtain ⟨k, hnormal, rfl⟩ := hp.own r (by simp [hown])
  rw [Reference.key_append] at h hc hslots
  have hright : t.right = Assoc.set (Key.normalize k) v s.right := h.own
  rw [hnormal] at hright
  exact single hslots hright (fun c j hj => h.registry.symm ▸ hj) (h.registry.symm ▸ hk)
    (.inl (by simp [hslots])) hc

end Tells

end Stencil.Merge
