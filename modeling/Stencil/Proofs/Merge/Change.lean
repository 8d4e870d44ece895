import Stencil.Proofs.Merge.Returns

namespace Stencil

@[simp]
theorem Side.other_other (side : Side) : side.other.other = side := by
  cases side <;> rfl

theorem Side.cases {P : Side → Prop} {side : Side} (hown : P side) (hother : P side.other)
    (any : Side) : P any := by
  cases side <;> cases any <;> assumption

namespace MergeState

variable (s : MergeState) (side : Side) (fs : Fields)

@[simp]
theorem fields_setFields : (s.setFields side fs).fields side = fs := by
  cases side <;> rfl

@[simp]
theorem fields_setFields_other : (s.setFields side.other fs).fields side = s.fields side := by
  cases side <;> rfl

@[simp]
theorem fields_other_setFields : (s.setFields side fs).fields side.other = s.fields side.other := by
  cases side <;> rfl

@[simp]
theorem registry_setFields : (s.setFields side fs).registry = s.registry := by
  cases side <;> rfl

@[simp]
theorem reshaped_setFields : (s.setFields side fs).reshaped = s.reshaped := by
  cases side <;> rfl

@[simp]
theorem fields_addLine (level : Level) (message : String) :
    (s.addLine level message).fields side = s.fields side := by
  cases side <;> rfl

@[simp]
theorem registry_addLine (level : Level) (message : String) :
    (s.addLine level message).registry = s.registry := rfl

end MergeState

namespace Merge

variable {chain : Scope} {side : Side} {key : String} {v w : Value} {s t u : MergeState}

structure Quiet (s t : MergeState) : Prop where
  fields : ∀ side, t.fields side = s.fields side
  registry : t.registry = s.registry
  steady : s.reshaped ≤ t.reshaped

theorem Quiet.left (h : Quiet s t) : t.left = s.left := h.fields .left

theorem Quiet.right (h : Quiet s t) : t.right = s.right := h.fields .right

theorem Quiet.refl (s : MergeState) : Quiet s s :=
  ⟨fun _ => rfl, rfl, Nat.le_refl _⟩

theorem Quiet.trans (h : Quiet s t) (g : Quiet t u) : Quiet s u :=
  ⟨fun side => (g.fields side).trans (h.fields side), g.registry.trans h.registry, Nat.le_trans h.steady g.steady⟩

theorem quiet_addLine (s : MergeState) (level : Level) (message : String) :
    Quiet s (s.addLine level message) :=
  ⟨fun side => s.fields_addLine side level message, rfl, Nat.le_refl _⟩

theorem quiet_reshape (s : MergeState) : Quiet s { s with reshaped := s.reshaped + 1 } :=
  ⟨fun side => by cases side <;> rfl, rfl, Nat.le_succ _⟩

theorem Returns.complain {complaints : List String} {x : Unit}
    (h : Returns (complain complaints) s x t) : Quiet s t := by
  rw [Merge.complain, returns_modify] at h
  subst h
  induction complaints generalizing s with
  | nil => exact Quiet.refl s
  | cons c rest ih => exact (quiet_addLine s .error c).trans ih

structure Reads (side : Side) (key : String) (v : Value) (s t : MergeState) : Prop where
  own : t.fields side = Assoc.set (Key.normalize key) v (s.fields side)
  other : t.fields side.other = s.fields side.other
  registry : t.registry = s.registry
  steady : s.reshaped ≤ t.reshaped

theorem Reads.put (side : Side) (key : String) (v : Value) (s : MergeState) :
    Reads side key v s (s.setFields side (Assoc.set (Key.normalize key) v (s.fields side))) :=
  ⟨by simp, by simp, by simp, by simp⟩

theorem Reads.quiet (h : Reads side key v s t) (g : Quiet t u) : Reads side key v s u :=
  ⟨(g.fields side).trans h.own, (g.fields _).trans h.other, g.registry.trans h.registry, Nat.le_trans h.steady g.steady⟩

structure Reserves (chain : Scope) (key : String) (s t : MergeState) : Prop where
  normal : Key.Normal key
  unknown : key ∉ s.registry.keys chain
  free : ∀ side, key ∉ Assoc.keys (s.fields side)
  fields : ∀ side, t.fields side = s.fields side
  registry : ∃ kind source attr, t.registry = s.registry.record chain key kind source attr
  steady : s.reshaped ≤ t.reshaped

theorem Returns.newKey {enclosing source : Option Tag} {suffix : String} {kind : Variation}
    {attr : Option String}
    (h : Returns (newKey chain enclosing suffix kind source attr) s key t) :
    Reserves chain key s t := by
  obtain ⟨hn, hc, hl, hr, rfl⟩ := returns_newKey h
  exact {
    normal := hn
    unknown := hc
    free := fun side => by cases side <;> assumption
    fields := fun side => by cases side <;> rfl
    registry := ⟨kind, source, attr, rfl⟩
    steady := Nat.le_refl _ }

theorem Reserves.reference (h : Reserves chain key s t) : reference chain key = chain ++ [key] := by
  rw [Stencil.reference, h.normal]

structure Opens (chain : Scope) (side : Side) (key : String) (v w : Value)
    (s t : MergeState) : Prop where
  normal : Key.Normal key
  unknown : key ∉ s.registry.keys chain
  free : ∀ side, key ∉ Assoc.keys (s.fields side)
  own : t.fields side = Assoc.set key v (s.fields side)
  other : t.fields side.other = Assoc.set key w (s.fields side.other)
  registry : ∃ kind source attr, t.registry = s.registry.record chain key kind source attr
  steady : s.reshaped ≤ t.reshaped

theorem Opens.quiet (h : Opens chain side key v w s t) (g : Quiet t u) :
    Opens chain side key v w s u where
  normal := h.normal
  unknown := h.unknown
  free := h.free
  own := (g.fields side).trans h.own
  other := (g.fields _).trans h.other
  registry := g.registry ▸ h.registry
  steady := Nat.le_trans h.steady g.steady

theorem Reserves.opens {u₁ u₂ : MergeState} (h : Reserves chain key s u₁)
    (hv : Reads side key v u₁ u₂) (hw : Reads side.other key w u₂ t) :
    Opens chain side key v w s t where
  normal := h.normal
  unknown := h.unknown
  free := h.free
  own := by
    have ho := hw.other
    rw [Side.other_other] at ho
    rw [ho, hv.own, h.fields, h.normal]
  other := by rw [hw.own, hv.other, h.fields, h.normal]
  registry := by
    rw [hw.registry, hv.registry]
    exact h.registry
  steady := Nat.le_trans h.steady (Nat.le_trans hv.steady hw.steady)

end Merge

end Stencil
