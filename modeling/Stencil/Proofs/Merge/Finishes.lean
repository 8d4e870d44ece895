import Stencil.Proofs.Merge.Failing

namespace Stencil

variable {β γ : Type}

def Final (r : Except Failure β) : Prop :=
  r ≠ .error .outOfFuel

theorem Failure.eq_outOfFuel {f : Failure} (h : f.family = .limit) : f = .outOfFuel := by
  cases f <;> first | rfl | cases h

namespace Merge

variable {s : MergeState}

def Finishes (m : Merge β) (s : MergeState) : Prop :=
  Final (m.run s).1

def Uncut (f : Failure) : Prop :=
  f ≠ .outOfFuel

instance : Failure.Lenient Uncut where
  holds {f} h := by
    rintro rfl
    exact h (.inr rfl)

theorem finishes_iff {m : Merge β} : Finishes m s ↔ FailsIn Uncut m s := by
  constructor
  · rintro h _ hrun rfl
    exact h hrun
  · intro h hrun
    exact h .outOfFuel hrun rfl

theorem finishes_bind {m : Merge β} {f : β → Merge γ} :
    Finishes (m >>= f) s ↔ Finishes m s ∧ ∀ x t, Returns m s x t → Finishes (f x) t := by
  simp only [finishes_iff, failsIn_bind]

theorem finishes_inScope {m : Merge β} :
    Finishes (inScope m) s ↔ Finishes m { s with left := [], right := [] } := by
  rw [finishes_iff, finishes_iff, failsIn_inScope]

end Merge

end Stencil
