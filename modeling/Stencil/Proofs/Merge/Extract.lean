import Stencil.Merge.Extract
import Stencil.Proofs.Merge.Returns

namespace Stencil.Merge

variable {τ σ : Type} {same : τ → τ → Bool} {merge : τ → σ → Merge τ} {sources : List σ}
  {s t : MergeState}

structure Fits (same : τ → τ → Bool) (merge : τ → σ → Merge τ) (sources : List σ)
    (Fit : τ → Prop) (Reads : τ → Fields → Prop) : Prop where
  fit : ∀ {template source s merged t}, Fit template → source ∈ sources →
    s.left = [] → s.right = [] → Returns (merge template source) s merged t → Fit merged
  same : ∀ {template source s merged t}, Fit template → source ∈ sources →
    s.left = [] → s.right = [] → Returns (merge template source) s merged t →
    same merged template = true → Reads template t.right
  read : ∀ {template source s merged t}, Fit template → source ∈ sources →
    s.left = [] → s.right = [] → Returns (merge template source) s merged t → Reads merged t.right
  fill : ∀ {template source s merged t record}, Fit template → source ∈ sources →
    s.left = [] → s.right = [] → Returns (merge template source) s merged t →
    Reads template record → Reads merged (mergeFields record t.left)

variable {Fit : τ → Prop} {Reads : τ → Fields → Prop}

theorem Fits.readSources (hf : Fits same merge sources Fit Reads) {mayRestart : Bool}
    {rest : List σ} {template : τ} {records : List Fields} {x : τ × Option (List Fields)}
    (hrest : ∀ source ∈ rest, source ∈ sources) (ht : Fit template)
    (hr : ∀ record ∈ records, Reads template record)
    (h : Returns (readSources same merge mayRestart template records rest) s x t) :
    Fit x.1 ∧ (mayRestart = false → x.2.isSome) ∧
      ∀ found ∈ x.2, found.length = records.length + rest.length ∧
        ∀ record ∈ found, Reads x.1 record := by
  -- the records read so far stay readable: each growth of the template fills them up
  induction rest generalizing template records s with
  | nil =>
    simp only [Merge.readSources, returns_pure] at h
    obtain ⟨rfl, rfl⟩ := h
    refine ⟨ht, fun _ => rfl, ?_⟩
    rintro found hfound
    cases hfound
    exact ⟨rfl, hr⟩
  | cons source rest ih =>
    have hmem : source ∈ sources := hrest source (by simp)
    have hrest : ∀ other ∈ rest, other ∈ sources := fun other ho => hrest other (by simp [ho])
    simp only [Merge.readSources, returns_bind, returns_get, returns_inScope] at h
    obtain ⟨_, _, ⟨rfl, rfl⟩, ⟨merged, held, record⟩, _, ⟨u, hm, hscope, rfl⟩, h⟩ := h
    dsimp only at hm hscope h
    cases hscope
    have count : ∀ filled : List Fields, filled.length = records.length →
        (filled ++ [u.right]).length + rest.length = records.length + (source :: rest).length := by
      intro filled hfilled
      simp only [List.length_append, List.length_cons, List.length_nil, hfilled]
      omega
    split at h
    · next hsame =>
      have hread : ∀ r ∈ records ++ [u.right], Reads template r := by
        intro r hr'
        rcases List.mem_append.mp hr' with hr' | hr'
        · exact hr r hr'
        · rw [List.mem_singleton.mp hr']
          exact hf.same ht hmem rfl rfl hm hsame
      obtain ⟨hfit, hsome, hfound⟩ := ih hrest ht hread h
      exact ⟨hfit, hsome, fun found hx => ⟨(hfound found hx).1.trans (count records rfl),
        (hfound found hx).2⟩⟩
    · simp only [returns_bind, returns_get] at h
      obtain ⟨_, _, ⟨rfl, rfl⟩, h⟩ := h
      split at h
      · next hrestart =>
        simp only [returns_pure] at h
        obtain ⟨rfl, rfl⟩ := h
        refine ⟨hf.fit ht hmem rfl rfl hm, ?_, by simp⟩
        intro hno
        simp [hno] at hrestart
      · have hread : ∀ r ∈ records.map (fun r => mergeFields r u.left) ++ [u.right],
            Reads merged r := by
          intro r hr'
          rcases List.mem_append.mp hr' with hr' | hr'
          · obtain ⟨old, hold, rfl⟩ := List.mem_map.mp hr'
            exact hf.fill ht hmem rfl rfl hm (hr old hold)
          · rw [List.mem_singleton.mp hr']
            exact hf.read ht hmem rfl rfl hm
        have hmerged : Fit merged := hf.fit ht hmem rfl rfl hm
        obtain ⟨hfit, hsome, hfound⟩ := ih hrest hmerged hread h
        exact ⟨hfit, hsome, fun found hx => ⟨(hfound found hx).1.trans (count _ (by simp)),
          (hfound found hx).2⟩⟩

theorem Fits.extractWithin (hf : Fits same merge sources Fit Reads) {restarts : Nat}
    {template : τ} {x : τ × List Fields} (ht : Fit template)
    (h : Returns (extractWithin same merge sources restarts template) s x t) :
    Fit x.1 ∧ x.2.length = sources.length ∧ ∀ record ∈ x.2, Reads x.1 record := by
  induction restarts generalizing template s with
  | zero =>
    simp only [Merge.extractWithin, returns_bind, returns_pure] at h
    obtain ⟨⟨grown, found⟩, u, hread, rfl, rfl⟩ := h
    obtain ⟨hfit, hsome, hfound⟩ := hf.readSources (fun _ hs => hs) ht (by simp) hread
    obtain ⟨records, rfl⟩ := Option.isSome_iff_exists.mp (hsome rfl)
    obtain ⟨hlen, hall⟩ := hfound records rfl
    exact ⟨hfit, by simpa using hlen, hall⟩
  | succ restarts ih =>
    rw [Merge.extractWithin, returns_bind] at h
    obtain ⟨⟨grown, found⟩, u, hread, h⟩ := h
    obtain ⟨hfit, -, hfound⟩ := hf.readSources (fun _ hs => hs) ht (by simp) hread
    cases found with
    | some records =>
      simp only [returns_pure] at h
      obtain ⟨rfl, rfl⟩ := h
      obtain ⟨hlen, hall⟩ := hfound records rfl
      exact ⟨hfit, by simpa using hlen, hall⟩
    | none => exact ih hfit h

theorem Fits.extract (hf : Fits same merge sources Fit Reads) {template : τ} {x : τ × List Fields}
    (ht : Fit template) (h : Returns (extract same merge template sources) s x t) :
    Fit x.1 ∧ x.2.length = sources.length ∧ ∀ record ∈ x.2, Reads x.1 record :=
  hf.extractWithin ht h

theorem Returns.extract_length {template : τ} {x : τ × List Fields}
    (h : Returns (extract same merge template sources) s x t) : x.2.length = sources.length := by
  have hf : Fits same merge sources (fun _ => True) fun _ _ => True := {
    fit := fun _ _ _ _ _ => trivial
    same := fun _ _ _ _ _ _ => trivial
    read := fun _ _ _ _ _ => trivial
    fill := fun _ _ _ _ _ _ => trivial }
  exact (hf.extract trivial h).2.1

theorem Returns.readSources_fields {mayRestart : Bool} {template : τ} {records : List Fields}
    {rest : List σ} {x : τ × Option (List Fields)}
    (h : Returns (readSources same merge mayRestart template records rest) s x t) (side : Side) :
    t.fields side = s.fields side := by
  induction rest generalizing template records s with
  | nil =>
    simp only [Merge.readSources, returns_pure] at h
    rw [h.2]
  | cons source rest ih =>
    simp only [Merge.readSources, returns_bind, returns_get, returns_inScope] at h
    obtain ⟨_, _, ⟨rfl, rfl⟩, ⟨merged, held, record⟩, _, ⟨u, -, -, rfl⟩, h⟩ := h
    split at h
    · rw [ih h]
      cases side <;> rfl
    · simp only [returns_bind, returns_get] at h
      obtain ⟨_, _, ⟨rfl, rfl⟩, h⟩ := h
      split at h
      · rw [returns_pure] at h
        rw [h.2]
        cases side <;> rfl
      · rw [ih h]
        cases side <;> rfl

theorem Returns.extractWithin_fields {restarts : Nat} {template : τ} {x : τ × List Fields}
    (h : Returns (extractWithin same merge sources restarts template) s x t) (side : Side) :
    t.fields side = s.fields side := by
  induction restarts generalizing template s with
  | zero =>
    simp only [Merge.extractWithin, returns_bind, returns_pure] at h
    obtain ⟨⟨grown, found⟩, u, hread, -, rfl⟩ := h
    exact hread.readSources_fields side
  | succ restarts ih =>
    rw [Merge.extractWithin, returns_bind] at h
    obtain ⟨⟨grown, found⟩, u, hread, h⟩ := h
    cases found with
    | some records =>
      simp only [returns_pure] at h
      rw [h.2]
      exact hread.readSources_fields side
    | none => exact (ih h).trans (hread.readSources_fields side)

theorem Returns.extract_fields {template : τ} {x : τ × List Fields}
    (h : Returns (extract same merge template sources) s x t) (side : Side) :
    t.fields side = s.fields side :=
  h.extractWithin_fields side

variable (Fit) in
theorem Returns.extract_template {template : τ} {x : τ × List Fields}
    (hfit : ∀ {template source s merged t}, Fit template → source ∈ sources →
      Returns (merge template source) s merged t → Fit merged)
    (ht : Fit template) (h : Returns (extract same merge template sources) s x t) : Fit x.1 := by
  have hf : Fits same merge sources Fit fun _ _ => True := {
    fit := fun ht hs _ _ hm => hfit ht hs hm
    same := fun _ _ _ _ _ _ => trivial
    read := fun _ _ _ _ _ => trivial
    fill := fun _ _ _ _ _ _ => trivial }
  exact (hf.extract ht h).1

variable (P : Registry → τ → Prop)

theorem Returns.readSources_registry {mayRestart : Bool} {template : τ} {records : List Fields}
    {rest : List σ} {x : τ × Option (List Fields)} (hrest : ∀ source ∈ rest, source ∈ sources)
    (hfit : ∀ {template source s merged t}, P s.registry template → source ∈ sources →
      Returns (merge template source) s merged t → P t.registry merged ∧ P t.registry template)
    (ht : P s.registry template)
    (h : Returns (readSources same merge mayRestart template records rest) s x t) :
    P t.registry x.1 := by
  induction rest generalizing template records s with
  | nil =>
    simp only [Merge.readSources, returns_pure] at h
    rw [h.1, h.2]
    exact ht
  | cons source rest ih =>
    have hmem : source ∈ sources := hrest source (by simp)
    have hrest : ∀ other ∈ rest, other ∈ sources := fun other ho => hrest other (by simp [ho])
    simp only [Merge.readSources, returns_bind, returns_get, returns_inScope] at h
    obtain ⟨_, _, ⟨rfl, rfl⟩, ⟨merged, held, record⟩, _, ⟨u, hm, -, rfl⟩, h⟩ := h
    dsimp only at hm h
    obtain ⟨hmerged, htemplate⟩ := hfit (by exact ht) hmem hm
    split at h
    · exact ih hrest (by exact htemplate) h
    · simp only [returns_bind, returns_get] at h
      obtain ⟨_, _, ⟨rfl, rfl⟩, h⟩ := h
      split at h
      · rw [returns_pure] at h
        rw [h.1, h.2]
        exact hmerged
      · exact ih hrest (by exact hmerged) h

theorem Returns.extractWithin_registry {restarts : Nat} {template : τ} {x : τ × List Fields}
    (hfit : ∀ {template source s merged t}, P s.registry template → source ∈ sources →
      Returns (merge template source) s merged t → P t.registry merged ∧ P t.registry template)
    (ht : P s.registry template)
    (h : Returns (extractWithin same merge sources restarts template) s x t) :
    P t.registry x.1 := by
  induction restarts generalizing template s with
  | zero =>
    simp only [Merge.extractWithin, returns_bind, returns_pure] at h
    obtain ⟨⟨grown, found⟩, u, hread, rfl, rfl⟩ := h
    exact hread.readSources_registry P (fun _ h => h) hfit ht
  | succ restarts ih =>
    rw [Merge.extractWithin, returns_bind] at h
    obtain ⟨⟨grown, found⟩, u, hread, h⟩ := h
    have hgrown := hread.readSources_registry P (fun _ h => h) hfit ht
    cases found with
    | some records =>
      simp only [returns_pure] at h
      rw [h.1, h.2]
      exact hgrown
    | none => exact ih hgrown h

theorem Returns.extract_registry {template : τ} {x : τ × List Fields}
    (hfit : ∀ {template source s merged t}, P s.registry template → source ∈ sources →
      Returns (merge template source) s merged t → P t.registry merged ∧ P t.registry template)
    (ht : P s.registry template) (h : Returns (extract same merge template sources) s x t) :
    P t.registry x.1 :=
  h.extractWithin_registry P hfit ht

end Stencil.Merge
