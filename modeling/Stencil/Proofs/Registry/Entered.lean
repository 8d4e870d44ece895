import Mathlib.Data.List.Nodup
import Stencil.Proofs.Key
import Stencil.Proofs.Registry

namespace Stencil.Registry

variable {g : Registry}

inductive Entered : Registry → Prop
  | empty : Entered {}
  | record {g : Registry} {key : String} (h : Entered g) (hkey : Key.Normal key) (hne : key ≠ "")
      (scope : Scope) (kind : Variation) (source : Option Tag) (attr : Option String) :
      Entered (g.record scope key kind source attr)
  | copyEntry {g : Registry} (h : Entered g) (scope : Scope) (key : String) (target : Scope) :
      Entered (g.copyEntry scope key target)
  | recordFields {g : Registry} (h : Entered g) (scope : Scope) (fields : Fields) :
      Entered (recordFields scope g fields)

structure Sound (g : Registry) : Prop where
  normal : ∀ scope, ∀ key ∈ g.keys scope, Key.Normal key ∧ key ≠ ""
  nodup : ∀ scope, (g.keys scope).Nodup

theorem nodup_putEntry {e : Entry} {entries : List Entry} (h : (entries.map Entry.key).Nodup) :
    ((putEntry e entries).map Entry.key).Nodup := by
  induction entries with
  | nil => simp [putEntry]
  | cons f rest ih =>
    rw [List.map_cons, List.nodup_cons] at h
    rw [putEntry]
    split
    · next hkey =>
      rw [List.map_cons, eq_of_beq hkey]
      exact List.nodup_cons.mpr h
    · next hkey =>
      refine List.nodup_cons.mpr ⟨?_, ih h.2⟩
      rw [mem_keys_putEntry]
      rintro (hf | hf)
      · exact hkey (beq_iff_eq.mpr hf.symm)
      · exact h.1 hf

theorem Sound.put {e : Entry} (h : Sound g) (he : Key.Normal e.key ∧ e.key ≠ "") (scope : Scope) :
    Sound (g.put scope e) where
  normal c k hk := by
    rcases mem_keys_put.mp hk with ⟨-, rfl⟩ | hk
    · exact he
    · exact h.normal c k hk
  nodup c := by
    unfold keys
    rw [entries_put]
    split
    · exact nodup_putEntry (h.nodup scope)
    · exact h.nodup c

theorem Sound.replace {e e' : Entry} {scope : Scope} {key : String} (h : Sound g)
    (he : g.entry? scope key = some e) (target : Scope) (hkey : e'.key = e.key) : Sound (g.put target e') := by
  obtain ⟨rfl, hmem⟩ := entry?_key he
  exact h.put (hkey ▸ h.normal scope _ hmem) target

theorem Sound.recordValue (h : Sound g) (scope : Scope) (key : String) (v : Value) :
    Sound (g.recordValue scope key v) := by
  unfold Registry.recordValue
  split
  · exact h
  · next e he =>
    apply h.replace he scope
    rfl

theorem sound_empty : Sound {} where
  normal scope key hkey := by
    cases hkey
  nodup _ := List.nodup_nil

theorem Entered.sound (h : Entered g) : Sound g := by
  induction h with
  | empty => exact sound_empty
  | record _ hkey hne scope kind source attr ih =>
    unfold Registry.record
    split
    · apply ih.put
      exact ⟨hkey, hne⟩
    · next e he =>
      apply ih.replace he scope
      rfl
  | copyEntry _ scope key target ih =>
    unfold Registry.copyEntry
    split
    · exact ih
    · next e he => exact ih.replace he target rfl
  | recordFields _ scope fields ih =>
    exact recordFields_preserves (fun g c k v h => h.recordValue c k v) scope ih fields

end Stencil.Registry
