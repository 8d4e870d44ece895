import Stencil.Merge.Loop
import Stencil.Proofs.Merge.Moving

namespace Stencil.Merge

structure Writes (old new : List String) (s t : MergeState) : Prop where
  right : ∀ k, k ∈ Assoc.keys t.right ↔ k ∈ Assoc.keys s.right ∨ k ∈ new
  subset : ∀ k ∈ Assoc.keys t.left, k ∈ Assoc.keys s.left ∨ k ∈ new
  fresh : ∀ k ∈ new, k ∉ old → k ∈ Assoc.keys t.left
  kept : ∀ k ∈ Assoc.keys s.left, k ∉ old → k ∈ Assoc.keys t.left

namespace Writes

variable {chain : Scope} {side : Side} {key : String} {v w : Value} {old new : List String}
  {s t u : MergeState}

theorem ofFields (h : ∀ side, t.fields side = s.fields side) : Writes [] [] s t := by
  have hl : t.left = s.left := h .left
  have hr : t.right = s.right := h .right
  exact {
    right := fun k => by simp [hr]
    subset := fun k hk => .inl (hl ▸ hk)
    fresh := by simp
    kept := fun k hk _ => hl.symm ▸ hk }

theorem append {old' new' : List String} (h : Writes old new s u) (g : Writes old' new' u t) :
    Writes (old ++ old') (new ++ new') s t where
  right k := by
    rw [g.right, h.right, List.mem_append, or_assoc]
  subset k hk := by
    rw [List.mem_append]
    rcases g.subset k hk with hk | hk
    · exact (h.subset k hk).imp_right .inl
    · exact .inr (.inr hk)
  fresh k hk ho := by
    rw [List.mem_append, not_or] at ho
    rcases List.mem_append.mp hk with hk | hk
    · exact g.kept k (h.fresh k hk ho.1) ho.2
    · exact g.fresh k hk ho.2
  kept k hk ho := by
    rw [List.mem_append, not_or] at ho
    exact g.kept k (h.kept k hk ho.1) ho.2

theorem before (h : Writes old new u t) (g : Quiet s u) : Writes old new s t :=
  (ofFields g.fields).append h

theorem after (h : Writes old new s u) (g : Quiet u t) : Writes old new s t := by
  simpa using h.append (ofFields g.fields)

theorem of_subset {old' : List String} (h : Writes old new s t) (ho : ∀ k ∈ old, k ∈ old') :
    Writes old' new s t :=
  ⟨h.right, h.subset, fun k hk hn => h.fresh k hk fun hm => hn (ho k hm),
    fun k hk hn => h.kept k hk fun hm => hn (ho k hm)⟩

theorem readRight (hk : Key.Normal key) (h : Reads .right key v s t) :
    Writes [key] [key] s t := by
  have hr : t.right = Assoc.set (Key.normalize key) v s.right := h.own
  have hl : t.left = s.left := h.other
  exact {
    right := fun k => by rw [hr, hk, Assoc.mem_keys_set, List.mem_singleton, or_comm]
    subset := fun k hm => .inl (hl ▸ hm)
    fresh := fun k hm hn => absurd hm hn
    kept := fun k hm _ => hl.symm ▸ hm }

theorem readLeft (hk : Key.Normal key) (h : Reads .left key v s t) :
    (∀ k, k ∈ Assoc.keys t.right ↔ k ∈ Assoc.keys s.right) ∧
      ∀ k, k ∈ Assoc.keys t.left ↔ k = key ∨ k ∈ Assoc.keys s.left := by
  have hr : t.right = s.right := h.other
  have hl : t.left = Assoc.set (Key.normalize key) v s.left := h.own
  rw [hr, hl, hk]
  exact ⟨fun k => Iff.rfl, fun k => Assoc.mem_keys_set⟩

theorem thenReadLeft (hk : Key.Normal key) (h : Writes old [key] s u) (g : Reads .left key v u t) :
    Writes old [key] s t := by
  obtain ⟨hr, hl⟩ := readLeft hk g
  exact {
    right := fun k => by rw [hr, h.right]
    subset := fun k hm => by
      rcases (hl k).mp hm with rfl | hm
      · exact .inr (List.mem_singleton_self _)
      · exact h.subset k hm
    fresh := fun k hm hn => (hl k).mpr (.inl (List.mem_singleton.mp hm))
    kept := fun k hm hn => (hl k).mpr (.inr (h.kept k hm hn)) }

theorem both (h : ∀ side, ∃ x, t.fields side = Assoc.set key x (s.fields side)) :
    Writes [] [key] s t := by
  obtain ⟨x, hl⟩ := h .left
  obtain ⟨y, hr⟩ := h .right
  have hl : t.left = Assoc.set key x s.left := hl
  have hr : t.right = Assoc.set key y s.right := hr
  exact {
    right := fun k => by rw [hr, Assoc.mem_keys_set, List.mem_singleton, or_comm]
    subset := fun k hm => by
      rwa [hl, Assoc.mem_keys_set, or_comm, ← List.mem_singleton] at hm
    fresh := fun k hm _ => by
      rw [hl, Assoc.mem_keys_set]
      exact .inl (List.mem_singleton.mp hm)
    kept := fun k hm _ => by
      rw [hl, Assoc.mem_keys_set]
      exact .inr hm }

theorem opens (h : Opens chain side key v w s t) : Writes [] [key] s t :=
  both (Side.cases ⟨_, h.own⟩ ⟨_, h.other⟩)

theorem reads (hk : Key.Normal key) (h : Reads side key v s u) (g : Reads side.other key w u t) :
    Writes [] [key] s t := by
  have hown : t.fields side = Assoc.set key v (s.fields side) := by
    have hu := g.other
    rw [Side.other_other] at hu
    rw [hu, h.own, hk]
  have hother : t.fields side.other = Assoc.set key w (s.fields side.other) := by
    rw [g.own, h.other, hk]
  exact both (Side.cases ⟨v, hown⟩ ⟨w, hother⟩)

theorem movesLeft {depth : Nat} {refs : List Reference} (h : Moves .left depth key refs s t)
    (hold : ∀ r ∈ refs, Key.normalize (r.getD depth "") ∈ old) : Writes old [] s t where
  right k := by
    have hr : t.right = s.right := h.other
    simp [hr]
  subset k hk := .inl (h.subset k hk)
  fresh := by simp
  kept k hk hn := h.kept k hk fun r hr he => hn (he ▸ hold r hr)

theorem movesRight {depth : Nat} (h : Moves .right depth key [] s t) : Writes [] [] s t where
  right k := by
    simp only [List.not_mem_nil, or_false]
    exact ⟨h.subset k, fun hk => h.kept k hk (by simp)⟩
  subset k hk := by
    have hl : t.left = s.left := h.other
    exact .inl (hl ▸ hk)
  fresh := by simp
  kept k hk _ := by
    have hl : t.left = s.left := h.other
    exact hl.symm ▸ hk

end Writes

end Stencil.Merge
