import Stencil.Merge.State
import Stencil.Proofs.Assoc
import Stencil.Proofs.Key

namespace Stencil.Merge

variable {β γ : Type} {s t : MergeState}

/-- A merge that is started in state `s` comes to an end with a result, in state `t`. -/
def Returns (m : Merge β) (s : MergeState) (x : β) (t : MergeState) : Prop :=
  m.run s = (.ok x, t)

theorem Returns.unique {m : Merge β} {u : MergeState} {x y : β} (h : Returns m s x t) (h' : Returns m s y u) :
    x = y ∧ t = u := by
  have he : (Except.ok x, t) = (Except.ok y, u) := Eq.trans (Eq.symm h) h'
  simpa using he

theorem exists_returns {m : Merge β} {f : β → γ} {y : γ}
    (h : (m.run s).1.toOption.map f = some y) : ∃ x t, Returns m s x t ∧ f x = y := by
  unfold Returns
  generalize m.run s = run at h ⊢
  obtain ⟨_ | x, t⟩ := run
  · cases h
  · exact ⟨x, t, rfl, Option.some.inj h⟩

@[simp]
theorem returns_pure {x y : β} : Returns (pure x) s y t ↔ y = x ∧ t = s := by
  constructor
  · intro h
    cases h
    exact ⟨rfl, rfl⟩
  · rintro ⟨rfl, rfl⟩
    rfl

@[simp]
theorem not_returns_throw {e : Failure} {x : β} : ¬ Returns (throw e) s x t := by
  intro h
  cases h

@[simp]
theorem returns_bind {m : Merge β} {f : β → Merge γ} {x : γ} :
    Returns (m >>= f) s x t ↔ ∃ y u, Returns m s y u ∧ Returns (f y) u x t := by
  change ExceptT.bind m f s = _ ↔ _
  unfold Returns
  rcases hm : m.run s with ⟨r, u⟩
  have hr : m s = (r, u) := hm
  simp only [ExceptT.bind, ExceptT.mk, bind, StateT.bind, hr]
  cases r with
  | ok y =>
    constructor
    · intro h
      exact ⟨y, u, rfl, h⟩
    · rintro ⟨_, _, he, h⟩
      cases he
      exact h
  | error e =>
    constructor
    · intro h
      cases h
    · rintro ⟨_, _, he, _⟩
      cases he

theorem run_bind_of_returns {m : Merge β} {f : β → Merge γ} {x : β} (h : Returns m s x t) :
    (m >>= f).run s = (f x).run t := by
  have hm : m s = (.ok x, t) := h
  change ExceptT.bind m f s = f x t
  simp only [ExceptT.bind, ExceptT.mk, bind, StateT.bind, hm]
  rfl

theorem run_bind_of_error {m : Merge β} {f : β → Merge γ} {e : Failure} (h : m.run s = (.error e, t)) :
    (m >>= f).run s = (.error e, t) := by
  have hm : m s = (.error e, t) := h
  change ExceptT.bind m f s = _
  simp only [ExceptT.bind, ExceptT.mk, bind, StateT.bind, hm]
  rfl

@[simp]
theorem returns_map {m : Merge β} {f : β → γ} {x : γ} :
    Returns (f <$> m) s x t ↔ ∃ y, Returns m s y t ∧ x = f y := by
  rw [← bind_pure_comp, returns_bind]
  simp only [returns_pure]
  constructor
  · rintro ⟨y, u, h, rfl, rfl⟩
    exact ⟨y, h, rfl⟩
  · rintro ⟨y, h, rfl⟩
    exact ⟨y, t, h, rfl, rfl⟩

@[simp]
theorem returns_get {x : MergeState} : Returns get s x t ↔ x = s ∧ t = s := by
  constructor
  · intro h
    cases h
    exact ⟨rfl, rfl⟩
  · rintro ⟨rfl, rfl⟩
    rfl

@[simp]
theorem returns_modify {f : MergeState → MergeState} {x : Unit} :
    Returns (modify f) s x t ↔ t = f s := by
  constructor
  · intro h
    cases h
    rfl
  · rintro rfl
    rfl

@[simp]
theorem returns_ofExcept {r : Except Failure β} {x : β} :
    Returns (ofExcept r) s x t ↔ r = .ok x ∧ t = s := by
  constructor
  · intro h
    cases h
    exact ⟨rfl, rfl⟩
  · rintro ⟨rfl, rfl⟩
    rfl

@[simp]
theorem returns_put {side : Side} {key : String} {v : Value} {x : Unit} :
    Returns (put side key v) s x t ↔
      t = s.setFields side (Assoc.set (Key.normalize key) v (s.fields side)) :=
  returns_modify

@[simp]
theorem returns_remove {side : Side} {key : String} {x : Unit} :
    Returns (remove side key) s x t ↔
      t = s.setFields side (Assoc.erase (Key.normalize key) (s.fields side)) :=
  returns_modify

@[simp]
theorem returns_find? {side : Side} {key : String} {x : Option Value} :
    Returns (find? side key) s x t ↔ x = (s.fields side).lookup (Key.normalize key) ∧ t = s := by
  constructor
  · intro h
    cases h
    exact ⟨rfl, rfl⟩
  · rintro ⟨rfl, rfl⟩
    rfl

@[simp]
theorem returns_reshape {x : Unit} :
    Returns reshape s x t ↔ t = { s with reshaped := s.reshaped + 1 } :=
  returns_modify

@[simp]
theorem returns_log {level : Level} {message : String} {x : Unit} :
    Returns (log level message) s x t ↔ t = s.addLine level message :=
  returns_modify

@[simp]
theorem returns_debug {message : String} {x : Unit} :
    Returns (debug message) s x t ↔ t = s.addLine .debug message :=
  returns_log

@[simp]
theorem returns_inScope {m : Merge β} {x : β × Fields × Fields} :
    Returns (inScope m) s x t ↔ ∃ u, Returns m { s with left := [], right := [] } x.1 u ∧
      x.2 = (u.left, u.right) ∧ t = { u with left := s.left, right := s.right } := by
  obtain ⟨y, l, r⟩ := x
  unfold Returns
  change (fun p : Except Failure β × MergeState =>
    (p.1.map fun z => (z, p.2.left, p.2.right), { p.2 with left := s.left, right := s.right }))
    (m.run { s with left := [], right := [] }) = _ ↔ _
  rcases m.run { s with left := [], right := [] } with ⟨q, u⟩
  cases q with
  | ok z =>
    constructor
    · intro h
      cases h
      exact ⟨u, rfl, rfl, rfl⟩
    · rintro ⟨v, hv, hf, rfl⟩
      cases hv
      cases hf
      rfl
  | error e =>
    constructor
    · intro h
      cases h
    · rintro ⟨v, hv, -⟩
      cases hv

theorem returns_newKey {chain : Scope} {enclosing source : Option Tag} {suffix key : String}
    {kind : Variation} {attr : Option String}
    (h : Returns (newKey chain enclosing suffix kind source attr) s key t) :
    Key.Normal key ∧ key ∉ s.registry.keys chain ∧ key ∉ Assoc.keys s.left ∧
      key ∉ Assoc.keys s.right ∧
      t = { s with registry := s.registry.record chain key kind source attr } := by
  simp only [newKey, returns_bind, returns_get, returns_ofExcept, returns_modify, returns_pure] at h
  obtain ⟨_, _, ⟨rfl, rfl⟩, name, _, ⟨hname, rfl⟩, _, _, rfl, rfl, rfl⟩ := h
  obtain ⟨hn, hl, hr⟩ := Record.uniqueName_spec hname
  rw [List.mem_append, not_or] at hr
  exact ⟨hn, hr.1, hl, hr.2, rfl⟩

end Stencil.Merge
