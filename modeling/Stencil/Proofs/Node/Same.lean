import Mathlib.Data.List.Nodup
import Mathlib.Data.List.Perm.Subperm
import Stencil.Proofs.Node.Own

namespace Stencil

theorem Tag.mem_of_same {s t : Tag} (h : s.same t = true) (hs : (s.attrs.map Attribute.name).Nodup)
    {a : Attribute} (ha : a ∈ t.attrs) : a ∈ s.attrs := by
  simp only [same, Bool.and_eq_true, beq_iff_eq, List.all_eq_true] at h
  obtain ⟨⟨-, hlen⟩, hall⟩ := h
  have hsub : s.attrs ⊆ t.attrs := fun b hb => List.mem_of_find?_eq_some (hall b hb)
  have hperm := (List.subperm_of_subset (List.Nodup.of_map _ hs) hsub).perm_of_length_le (Nat.le_of_eq hlen.symm)
  exact hperm.symm.subset ha

theorem Tag.attr?_of_mem {t : Tag} {a : Attribute} (ht : (t.attrs.map Attribute.name).Nodup)
    (ha : a ∈ t.attrs) : t.attr? a.name = some a := by
  unfold Tag.attr?
  cases hf : t.attrs.find? fun b => b.name == a.name with
  | none => simpa using List.find?_eq_none.mp hf a ha
  | some b =>
    have hname : b.name = a.name := by simpa using List.find?_some hf
    rw [List.inj_on_of_nodup_map ht (List.mem_of_find?_eq_some hf) ha hname]

theorem Tag.same_of_perm {s t : Tag} (hname : s.name = t.name) (ht : (t.attrs.map Attribute.name).Nodup)
    (hperm : s.attrs.Perm t.attrs) : s.same t = true := by
  simp only [Tag.same, Bool.and_eq_true, beq_iff_eq, List.all_eq_true]
  exact ⟨⟨hname, hperm.length_eq⟩, fun a ha => Tag.attr?_of_mem ht (hperm.subset ha)⟩

namespace Node

mutual
theorem same_refl : (n : Node) → n.Proper → same n n = true
  | literal .., _ => by simp [same]
  | slot .., _ => by simp [same]
  | content, _ => rfl
  | foreign, _ => rfl
  | block _ _ t, h => by simp [same, same_refl t h]
  | element t cs, h => by
    rw [same, Tag.same_of_perm rfl h.1 (List.Perm.refl _), sameList_refl cs h.2, Bool.and_self]

theorem sameList_refl : (ns : List Node) → ProperList ns → sameList ns ns = true
  | [], _ => rfl
  | n :: ns, h => by rw [sameList, same_refl n h.1, sameList_refl ns h.2, Bool.and_self]
end

theorem sameList_append {as bs cs ds : List Node} (h : sameList as bs = true)
    (g : sameList cs ds = true) : sameList (as ++ cs) (bs ++ ds) = true := by
  induction as generalizing bs with
  | nil =>
    cases bs with
    | nil => exact g
    | cons b bs => simp [sameList] at h
  | cons a as ih =>
    cases bs with
    | nil => simp [sameList] at h
    | cons b bs =>
      rw [sameList, Bool.and_eq_true] at h
      rw [List.cons_append, List.cons_append, sameList, h.1, ih h.2, Bool.and_self]

mutual
theorem ownReferences_of_same : (m n : Node) → same m n = true → m.Proper →
    ∀ {r : Reference}, r ∈ n.ownReferences → r ∈ m.ownReferences
  | m, literal .., _, _, _, hr => by simp [ownReferences] at hr
  | m, content, _, _, _, hr => by simp [ownReferences] at hr
  | m, foreign, _, _, _, hr => by simp [ownReferences] at hr
  | m, slot k q, h, _, r, hr => by
    cases m with
    | slot l p =>
      simp only [same, Bool.and_eq_true, beq_iff_eq] at h
      rwa [ownReferences, h.2]
    | _ => simp [same] at h
  | m, block k q t, h, _, r, hr => by
    cases m with
    | block l p u =>
      simp only [same, Bool.and_eq_true, beq_iff_eq] at h
      rwa [ownReferences, h.1.2]
    | _ => simp [same] at h
  | element t cs, element t' cs', h, hp, r, hr => by
    rw [same, Bool.and_eq_true] at h
    rcases List.mem_append.mp hr with hr | hr
    · obtain ⟨a, ha, hr⟩ := List.mem_filterMap.mp hr
      exact List.mem_append_left _ (List.mem_filterMap.mpr ⟨a, Tag.mem_of_same h.1 hp.1 ha, hr⟩)
    · exact List.mem_append_right _ (ownReferencesOfList_of_same cs cs' h.2 hp.2 hr)
  | literal .., element .., h, _, _, _ => by simp [same] at h
  | slot .., element .., h, _, _, _ => by simp [same] at h
  | block .., element .., h, _, _, _ => by simp [same] at h
  | content, element .., h, _, _, _ => by simp [same] at h
  | foreign, element .., h, _, _, _ => by simp [same] at h

theorem ownReferencesOfList_of_same : (ms ns : List Node) → sameList ms ns = true →
    ProperList ms → ∀ {r : Reference}, r ∈ ownReferencesOfList ns → r ∈ ownReferencesOfList ms
  | _, [], _, _, _, hr => by simp [ownReferencesOfList] at hr
  | [], _ :: _, h, _, _, _ => by simp [sameList] at h
  | m :: ms, n :: ns, h, hp, r, hr => by
    rw [sameList, Bool.and_eq_true] at h
    rcases List.mem_append.mp hr with hr | hr
    · exact List.mem_append_left _ (ownReferences_of_same m n h.1 hp.1 hr)
    · exact List.mem_append_right _ (ownReferencesOfList_of_same ms ns h.2 hp.2 hr)
end

theorem slots_of_sameList {ms ns : List Node} (h : sameList ms ns = true) (hp : ProperList ms) :
    ∀ k ∈ slots ns, k ∈ slots ms := by
  intro k hk
  obtain ⟨r, hr, rfl⟩ := List.mem_map.mp hk
  exact List.mem_map.mpr ⟨r, ownReferencesOfList_of_same ms ns h hp hr, rfl⟩

end Node

end Stencil
