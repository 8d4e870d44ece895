import Stencil.Collection
import Stencil.Proofs.Merge.Extract

namespace Stencil.Collection

open Merge

variable {α : Type} [Grade α] {P : Registry → List Node → Prop} {pages : List (List Node)}
  {layout merged : List Node} {s t : MergeState}

def KeptBy (α : Type) [Grade α] (P : Registry → List Node → Prop) (pages : List (List Node)) : Prop :=
  ∀ {layout page merged s t}, P s.registry layout → page ∈ pages → s.left = [] → s.right = [] →
    Returns (lists α [] {} layout page) s merged t → P t.registry merged

theorem Returns.mergeLayout {page : List Node}
    (h : Returns (mergeLayout α layout page) s merged t) :
    ∃ u, Returns (lists α [] {} layout page) { s with left := [], right := [] } merged u ∧
      t = { u with left := s.left, right := s.right } := by
  simp only [Collection.mergeLayout, returns_bind, returns_pure] at h
  obtain ⟨⟨m, l, r⟩, _, hm, rfl, rfl⟩ := h
  obtain ⟨u, hu, -, rfl⟩ := returns_inScope.mp hm
  exact ⟨u, hu, rfl⟩

theorem KeptBy.layouts (hp : KeptBy α P pages) (hfirst : P s.registry layout)
    (h : Returns (pages.foldlM (Collection.mergeLayout α) layout) s merged t) :
    P t.registry merged := by
  induction pages generalizing layout s with
  | nil =>
    rw [List.foldlM_nil, returns_pure] at h
    rw [h.1, h.2]
    exact hfirst
  | cons page pages ih =>
    rw [List.foldlM_cons, returns_bind] at h
    obtain ⟨next, u, hnext, h⟩ := h
    obtain ⟨v, hmerge, rfl⟩ := Returns.mergeLayout hnext
    have hrest : KeptBy α P pages := fun hl hm => hp hl (List.mem_cons_of_mem _ hm)
    have hkept : P v.registry next :=
      hp (s := { s with left := [], right := [] }) hfirst (List.mem_cons_self ..) rfl rfl hmerge
    exact ih (s := { v with left := s.left, right := s.right }) hrest hkept h

theorem Returns.snapshot_registry {file : String} {contents : Except Failure Json} {x : Unit}
    (h : Returns (snapshot file contents) s x t) : t.registry = s.registry := by
  simp only [snapshot, emit, returns_bind, returns_ofExcept, returns_modify] at h
  obtain ⟨_, _, ⟨-, rfl⟩, _, _, rfl, rfl⟩ := h
  rfl

theorem KeptBy.fold {name : String} {progress : Bool} {total count : Nat} {documents : List Document}
    (hp : KeptBy α P (documents.map Document.layout)) (hfirst : P s.registry layout)
    (h : Returns (Collection.fold α name progress total count layout documents) s merged t) :
    P t.registry merged := by
  induction documents generalizing layout count s with
  | nil =>
    simp only [Collection.fold, returns_pure] at h
    rw [h.1, h.2]
    exact hfirst
  | cons d documents ih =>
    simp only [Collection.fold, returns_bind, returns_debug] at h
    obtain ⟨_, _, rfl, next, _, hnext, h⟩ := h
    obtain ⟨u, hmerge, rfl⟩ := Returns.mergeLayout hnext
    have hrest : KeptBy α P (documents.map Document.layout) := fun hl hm =>
      hp hl (List.mem_cons_of_mem _ hm)
    have hnext : P u.registry next := hp (by exact hfirst) (List.mem_cons_self ..) rfl rfl hmerge
    split at h
    · simp only [returns_bind, returns_log] at h
      obtain ⟨_, _, rfl, _, _, hsnapshot, h⟩ := h
      refine ih hrest ?_ h
      rw [Returns.snapshot_registry hsnapshot]
      exact hnext
    · simp only [returns_bind] at h
      obtain ⟨_, _, hsnapshot, h⟩ := h
      refine ih hrest ?_ h
      rw [Returns.snapshot_registry hsnapshot]
      exact hnext

end Stencil.Collection
