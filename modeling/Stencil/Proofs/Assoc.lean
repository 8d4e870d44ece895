import Mathlib.Data.List.Basic
import Stencil.Value

namespace Stencil

namespace Assoc

variable {κ β : Type}

@[simp]
theorem keys_nil : keys ([] : List (κ × β)) = [] := rfl

@[simp]
theorem keys_cons (e : κ × β) (entries : List (κ × β)) : keys (e :: entries) = e.1 :: keys entries :=
  rfl

variable [BEq κ] [LawfulBEq κ]

theorem mem_keys_set {k j : κ} {v : β} {entries : List (κ × β)} :
    j ∈ keys (set k v entries) ↔ j = k ∨ j ∈ keys entries := by
  induction entries with
  | nil => simp [set]
  | cons e entries ih =>
    by_cases h : k = e.1
    · subst h
      simp [set]
    · simp only [set, beq_iff_eq, h, if_false, keys_cons, List.mem_cons, ih]
      tauto

theorem lookup_cons_of_ne {k j : κ} (h : j ≠ k) (v : β) (entries : List (κ × β)) :
    ((k, v) :: entries).lookup j = entries.lookup j := by
  rw [List.lookup_cons, beq_eq_false_iff_ne.mpr h]

theorem lookup_set_self (k : κ) (v : β) (entries : List (κ × β)) :
    (set k v entries).lookup k = some v := by
  induction entries with
  | nil => simp [set]
  | cons e entries ih =>
    obtain ⟨i, w⟩ := e
    by_cases hk : k = i
    · subst hk
      simp [set]
    · simp only [set, beq_eq_false_iff_ne.mpr hk, Bool.false_eq_true, if_false, lookup_cons_of_ne hk, ih]

theorem lookup_set_of_ne {k j : κ} (h : j ≠ k) (v : β) (entries : List (κ × β)) :
    (set k v entries).lookup j = entries.lookup j := by
  induction entries with
  | nil => rw [set, lookup_cons_of_ne h]
  | cons e entries ih =>
    obtain ⟨i, w⟩ := e
    by_cases hk : k = i
    · subst hk
      simp only [set, beq_self_eq_true, if_true, lookup_cons_of_ne h]
    · simp only [set, beq_eq_false_iff_ne.mpr hk, Bool.false_eq_true, if_false]
      by_cases hj : j = i
      · subst hj
        simp
      · rw [lookup_cons_of_ne hj, lookup_cons_of_ne hj, ih]

theorem mem_keys_erase {k j : κ} {entries : List (κ × β)} :
    j ∈ keys (erase k entries) ↔ j ≠ k ∧ j ∈ keys entries := by
  simp only [keys, erase, List.mem_map, List.mem_filter, Bool.not_eq_true', beq_eq_false_iff_ne, ne_eq]
  constructor
  · rintro ⟨e, ⟨he, hk⟩, rfl⟩
    exact ⟨fun hj => hk hj.symm, e, he, rfl⟩
  · rintro ⟨hk, e, he, rfl⟩
    exact ⟨e, ⟨he, fun hj => hk hj.symm⟩, rfl⟩

theorem has_iff {k : κ} {entries : List (κ × β)} : has k entries = true ↔ k ∈ keys entries := by
  simp only [has, keys, List.any_eq_true, beq_iff_eq, List.mem_map]
  constructor
  · rintro ⟨e, he, rfl⟩
    exact ⟨e, he, rfl⟩
  · rintro ⟨e, he, rfl⟩
    exact ⟨e, he, rfl⟩

theorem lookup_eq_none_iff {k : κ} {entries : List (κ × β)} :
    entries.lookup k = none ↔ k ∉ keys entries := by
  induction entries with
  | nil => simp
  | cons e entries ih =>
    obtain ⟨i, w⟩ := e
    by_cases hk : k = i
    · simp [hk]
    · simp only [lookup_cons_of_ne hk, ih, keys_cons, List.mem_cons, hk, false_or]

theorem lookup_isSome_iff {k : κ} {entries : List (κ × β)} :
    (entries.lookup k).isSome ↔ k ∈ keys entries := by
  rw [← not_iff_not, Bool.not_eq_true, Option.isSome_eq_false_iff, Option.isNone_iff_eq_none,
    lookup_eq_none_iff]

theorem set_of_lookup {k : κ} {v : β} {entries : List (κ × β)} (h : entries.lookup k = some v) :
    set k v entries = entries := by
  induction entries with
  | nil => cases h
  | cons e entries ih =>
    obtain ⟨j, w⟩ := e
    by_cases hk : k = j
    · subst hk
      rw [List.lookup_cons_self] at h
      cases h
      simp [set]
    · rw [lookup_cons_of_ne hk] at h
      rw [set, beq_eq_false_iff_ne.mpr hk, ih h]
      rfl

theorem lookup_of_mem {e : κ × β} {entries : List (κ × β)} (hnodup : (keys entries).Nodup) (he : e ∈ entries) :
    entries.lookup e.1 = some e.2 := by
  induction entries with
  | nil => cases he
  | cons f entries ih =>
    rw [keys_cons, List.nodup_cons] at hnodup
    rcases List.mem_cons.mp he with rfl | he
    · exact List.lookup_cons_self
    · have hne : e.1 ≠ f.1 := by
        intro heq
        exact hnodup.1 (heq ▸ List.mem_map_of_mem he)
      rw [lookup_cons_of_ne hne]
      exact ih hnodup.2 he

theorem mem_of_lookup {k : κ} {v : β} {entries : List (κ × β)} (h : entries.lookup k = some v) :
    (k, v) ∈ entries := by
  obtain ⟨before, after, rfl, -⟩ := List.lookup_eq_some_iff.mp h
  simp

theorem set_of_not_mem {k : κ} {v : β} {entries : List (κ × β)} (h : k ∉ keys entries) :
    set k v entries = entries ++ [(k, v)] := by
  induction entries with
  | nil => rfl
  | cons e entries ih =>
    have hk : k ≠ e.1 := fun hk => h (hk ▸ List.mem_cons_self)
    have hrest : k ∉ keys entries := fun hrest => h (List.mem_cons_of_mem _ hrest)
    rw [set, beq_eq_false_iff_ne.mpr hk, ih hrest]
    rfl

theorem foldl_set_of_nodup {entries others : List (κ × β)} (h : (keys (entries ++ others)).Nodup) :
    others.foldl (fun acc e => set e.1 e.2 acc) entries = entries ++ others := by
  induction others generalizing entries with
  | nil => simp
  | cons e others ih =>
    rw [keys, List.map_append, List.map_cons] at h
    have hfresh : e.1 ∉ keys entries := fun hmem =>
      (List.nodup_append.mp h).2.2 _ hmem _ List.mem_cons_self rfl
    have hnext : entries ++ e :: others = entries ++ [e] ++ others := by simp
    rw [List.foldl_cons, set_of_not_mem hfresh, ih, hnext]
    rw [keys, ← hnext, List.map_append]
    exact h

theorem lookup_foldl_set_of_not_mem {entries others : List (κ × β)} {k : κ} (h : k ∉ keys others) :
    (others.foldl (fun acc e => set e.1 e.2 acc) entries).lookup k = entries.lookup k := by
  induction others generalizing entries with
  | nil => rfl
  | cons e others ih =>
    obtain ⟨he, hothers⟩ := not_or.mp (mt List.mem_cons.mpr h)
    rw [List.foldl_cons, ih hothers, lookup_set_of_ne he]

theorem ofList_of_nodup {entries : List (κ × β)} (h : (keys entries).Nodup) : ofList entries = entries := by
  have hall : (keys ([] ++ entries)).Nodup := h
  exact foldl_set_of_nodup hall

end Assoc

theorem mem_keys_mergeFields {base other : Fields} {k : String} :
    k ∈ Assoc.keys (mergeFields base other) ↔ k ∈ Assoc.keys base ∨ k ∈ Assoc.keys other := by
  induction other generalizing base with
  | nil => simp [Value.mergeFields]
  | cons e other ih =>
    obtain ⟨j, v⟩ := e
    rw [Value.mergeFields, ih, Assoc.keys_cons, List.mem_cons]
    cases base.lookup j <;> simp only [Assoc.mem_keys_set] <;> tauto

theorem lookup_mergeFields {base other : Fields} (hmaps : ∀ e ∈ other, e.2.isMap = false) (k : String) :
    (mergeFields base other).lookup k = (base.lookup k).or (other.lookup k) := by
  induction other generalizing base with
  | nil => simp [Value.mergeFields]
  | cons e other ih =>
    obtain ⟨j, v⟩ := e
    obtain ⟨hv, hmaps⟩ := List.forall_mem_cons.mp hmaps
    have hstays (old : Value) : old.overlay v = old := by
      cases v with
      | map => cases hv
      | _ => rfl
    rw [Value.mergeFields, ih hmaps]
    by_cases hk : k = j
    · subst hk
      cases hbase : base.lookup k <;> simp [Assoc.lookup_set_self, hstays]
    · rw [Assoc.lookup_cons_of_ne hk]
      cases base.lookup j <;> simp only [Assoc.lookup_set_of_ne hk]

end Stencil
