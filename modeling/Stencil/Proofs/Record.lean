import Stencil.Proofs.Key

namespace Stencil

theorem freeName?_eq_some {taken : String → Bool} {base name : String} (h : freeName? taken base = some name) :
    name = base ∨ taken base = true ∧ ∃ i < maxNumberedNames, name = numbered base i ∧
      ∀ j < i, taken (numbered base j) = true := by
  unfold freeName? at h
  split at h
  · next htaken =>
    obtain ⟨i, hi, rfl⟩ := Option.map_eq_some_iff.mp h
    obtain ⟨-, hmem, hbefore⟩ := List.find?_range_eq_some.mp hi
    refine .inr ⟨htaken, i, List.mem_range.mp hmem, rfl, fun j hj => ?_⟩
    simpa using hbefore j hj
  · cases h
    exact .inl rfl

theorem freeName?_eq_none {taken : String → Bool} {base : String} :
    freeName? taken base = none ↔
      taken base = true ∧ ∀ i < maxNumberedNames, taken (numbered base i) = true := by
  unfold freeName?
  split
  · next htaken =>
    rw [Option.map_eq_none_iff, List.find?_range_eq_none]
    simp [htaken]
  · next htaken => simp [htaken]

namespace Record

def Taken (r : Record) (reserved : List String) (name : String) : Prop :=
  name ∈ Assoc.keys r.fields ∨ name ∈ reserved

theorem taken_iff (r : Record) (reserved : List String) {name : String} (h : Key.Normal name) :
    (r.has name || reserved.contains name) = true ↔ r.Taken reserved name := by
  rw [Bool.or_eq_true, has, h, Assoc.has_iff, List.contains_iff_mem, Taken]

structure Answers (r : Record) (enclosing : Option Tag) (before after : String) (reserved : List String) : Prop
    where
  given : ∀ key, r.uniqueName enclosing before after reserved = .ok key →
    Key.Normal key ∧ key ≠ "" ∧ ¬ r.Taken reserved key ∧
      (key = baseName enclosing before after ∨
        r.Taken reserved (baseName enclosing before after) ∧
          ∃ i < 2000, key = numbered (baseName enclosing before after) i ∧
            ∀ j < i, r.Taken reserved (numbered (baseName enclosing before after) j))
  refused : ∀ f, r.uniqueName enclosing before after reserved = .error f ↔
    f = .namesExhausted (baseName enclosing before after) r.chain ∧
      r.Taken reserved (baseName enclosing before after) ∧
      ∀ i < 2000, r.Taken reserved (numbered (baseName enclosing before after) i)

theorem answers (r : Record) (enclosing : Option Tag) (before after : String) (reserved : List String) :
    r.Answers enclosing before after reserved := by
  obtain ⟨hnormal, hne⟩ := baseName_normal enclosing before after
  have hbase := r.taken_iff reserved hnormal
  have hnumbered (i : Nat) := r.taken_iff reserved (Key.normal_numbered hnormal hne i)
  have hname : freeName? (fun name => r.has name || reserved.contains name) (baseName enclosing before after) = none ↔
      r.Taken reserved (baseName enclosing before after) ∧
        ∀ i < 2000, r.Taken reserved (numbered (baseName enclosing before after) i) := by
    rw [freeName?_eq_none, hbase]
    simp only [hnumbered, maxNumberedNames]
  constructor
  · intro key h
    obtain ⟨hkey, hfields, hreserved⟩ := uniqueName_spec h
    have htaken : ¬ r.Taken reserved key := not_or.mpr ⟨hfields, hreserved⟩
    unfold uniqueName at h
    dsimp only at h
    split at h
    · next name hfree =>
      cases h
      rcases freeName?_eq_some hfree with hplain | ⟨hplain, i, hi, hnumber, hless⟩
      · exact ⟨hkey, hplain ▸ hne, htaken, .inl hplain⟩
      · have hkeyne : key ≠ "" := by
          rw [hnumber]
          exact numbered_ne_empty _ i
        exact ⟨hkey, hkeyne, htaken, .inr ⟨hbase.mp hplain, i, hi, hnumber, fun j hj => (hnumbered j).mp (hless j hj)⟩⟩
    · cases h
  · intro f
    rw [← hname]
    unfold uniqueName
    dsimp only
    split
    · next name hfree =>
      rw [hfree]
      constructor
      · intro h
        cases h
      · rintro ⟨-, h⟩
        cases h
    · next hnone =>
      rw [hnone, Except.error.injEq, eq_comm, and_iff_left rfl]

end Record

end Stencil
