import Mathlib.Data.List.Basic
import Stencil.Failure

namespace Stencil

variable {ε β γ δ : Type}

theorem mapM_ok_iff {f : β → Except ε γ} {xs : List β} :
    (∃ ys, xs.mapM f = .ok ys) ↔ ∀ x ∈ xs, ∃ y, f x = .ok y := by
  induction xs with
  | nil => exact ⟨fun _ _ hx => absurd hx List.not_mem_nil, fun _ => ⟨[], rfl⟩⟩
  | cons x xs ih =>
    rw [List.forall_mem_cons, ← ih, List.mapM_cons]
    constructor
    · rintro ⟨ys, h⟩
      obtain ⟨y, hy, h⟩ := bind_eq_ok.mp h
      obtain ⟨others, hothers, -⟩ := bind_eq_ok.mp h
      exact ⟨⟨y, hy⟩, others, hothers⟩
    · rintro ⟨⟨y, hy⟩, others, hothers⟩
      rw [hy, hothers]
      exact ⟨_, rfl⟩

theorem map_eq_of_mapM {f : β → Except Failure γ} {before : β → δ} {after : γ → δ}
    (hkept : ∀ {x y}, f x = .ok y → after y = before x) {xs : List β} {ys : List γ} (h : xs.mapM f = .ok ys) :
    ys.map after = xs.map before := by
  induction xs generalizing ys with
  | nil =>
    cases h
    rfl
  | cons x xs ih =>
    rw [List.mapM_cons] at h
    obtain ⟨y, hy, h⟩ := bind_eq_ok.mp h
    obtain ⟨others, hothers, h⟩ := bind_eq_ok.mp h
    cases h
    rw [List.map_cons, List.map_cons, hkept hy, ih hothers]

end Stencil
