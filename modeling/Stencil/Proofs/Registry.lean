import Stencil.Proofs.Assoc
import Stencil.Registry.Basic

namespace Stencil.Registry

variable {r : Registry} {scope target c : Scope} {key k : String}

theorem entries_put (e : Entry) :
    (r.put scope e).entries c = if c = scope then putEntry e (r.entries scope) else r.entries c := by
  unfold put entries
  split
  · next h => rw [h, Assoc.lookup_set_self]; rfl
  · next h => rw [Assoc.lookup_set_of_ne h]

theorem mem_keys_putEntry {e : Entry} {entries : List Entry} :
    k ∈ (putEntry e entries).map Entry.key ↔ k = e.key ∨ k ∈ entries.map Entry.key := by
  induction entries with
  | nil => simp [putEntry]
  | cons f rest ih =>
    rw [putEntry]
    split
    · next h =>
      simp only [beq_iff_eq] at h
      simp [h]
    · rw [List.map_cons, List.mem_cons, ih, List.map_cons, List.mem_cons]
      tauto

theorem mem_keys_put {e : Entry} :
    k ∈ (r.put scope e).keys c ↔ (c = scope ∧ k = e.key) ∨ k ∈ r.keys c := by
  unfold keys
  rw [entries_put]
  split
  · next h => rw [mem_keys_putEntry, h]; simp
  · next h => simp [h]

theorem entry?_key {e : Entry} (h : r.entry? scope key = some e) :
    e.key = key ∧ key ∈ r.keys scope := by
  have hk : e.key = key := by simpa using List.find?_some h
  exact ⟨hk, List.mem_map.mpr ⟨e, List.mem_of_find?_eq_some h, hk⟩⟩

theorem entry?_of_mem_keys (h : key ∈ r.keys scope) : ∃ e, r.entry? scope key = some e := by
  obtain ⟨e, he, hk⟩ := List.mem_map.mp h
  cases hf : r.entry? scope key with
  | some e => exact ⟨e, rfl⟩
  | none =>
    have hno := List.find?_eq_none.mp hf e he
    simp [hk] at hno

theorem mem_keys_record {kind : Variation} {source : Option Tag} {attr : Option String} :
    k ∈ (r.record scope key kind source attr).keys c ↔ (c = scope ∧ k = key) ∨ k ∈ r.keys c := by
  unfold record
  split
  · rw [mem_keys_put]
  · next e he => rw [mem_keys_put, (entry?_key he).1]

theorem mem_keys_copyEntry :
    k ∈ (r.copyEntry scope key target).keys c ↔
      (c = target ∧ k = key ∧ key ∈ r.keys scope) ∨ k ∈ r.keys c := by
  unfold copyEntry
  split
  · next he =>
    constructor
    · exact .inr
    · rintro (⟨-, -, hk⟩ | h)
      · obtain ⟨e, hs⟩ := entry?_of_mem_keys hk
        rw [he] at hs
        cases hs
      · exact h
  · next e he =>
    obtain ⟨hk, hmem⟩ := entry?_key he
    rw [mem_keys_put, hk]
    tauto

section Values

variable {P : Registry → Prop}

mutual
theorem recordAt_preserves (hP : ∀ g scope key v, P g → P (g.recordValue scope key v)) (scope : Scope)
    (key : String) {g : Registry} (h : P g) : (v : Value) → P (recordAt scope key g v)
  | .map fields => by
    rw [recordAt]
    exact recordFields_preserves hP _ h fields
  | .list items => by
    rw [recordAt]
    exact recordItems_preserves hP _ h items
  | .null | .bool _ | .int _ | .text _ => by
    rw [recordAt]
    · exact hP g scope key _ h
    all_goals simp

theorem recordItems_preserves (hP : ∀ g scope key v, P g → P (g.recordValue scope key v)) (scope : Scope)
    {g : Registry} (h : P g) : (items : List Value) → P (recordItems scope g items)
  | [] => h
  | v :: rest => by
    rw [recordItems]
    exact recordItems_preserves hP scope (recordItem_preserves hP scope h v) rest

theorem recordItem_preserves (hP : ∀ g scope key v, P g → P (g.recordValue scope key v)) (scope : Scope)
    {g : Registry} (h : P g) : (v : Value) → P (recordItem scope g v)
  | .map fields => by
    rw [recordItem]
    exact recordFields_preserves hP scope h fields
  | .null | .bool _ | .int _ | .text _ | .list _ => by
    rw [recordItem]
    · exact h
    · simp

theorem recordFields_preserves (hP : ∀ g scope key v, P g → P (g.recordValue scope key v)) (scope : Scope)
    {g : Registry} (h : P g) : (fields : List (String × Value)) → P (recordFields scope g fields)
  | [] => h
  | (k, v) :: rest => by
    rw [recordFields]
    exact recordFields_preserves hP scope (recordAt_preserves hP scope k h v) rest
end

end Values

end Stencil.Registry
