import Mathlib.Data.List.Basic
import Stencil.Proofs.Assoc
import Stencil.Record

namespace Stencil

namespace Key

def Clean (cs : List Char) : Prop :=
  (∀ c ∈ cs, isSafe c = true) ∧ cs.head? ≠ some '_' ∧ cs.getLast? ≠ some '_'

def Normal (key : String) : Prop := normalize key = key

private def keepSafe (acc : List Char × Bool) (c : Char) : List Char × Bool :=
  if isSafe c then (c :: acc.1, false)
  else if acc.2 then acc else ('_' :: acc.1, true)

private theorem foldl_keepSafe_of_safe (cs : List Char) (h : ∀ c ∈ cs, isSafe c = true)
    (acc : List Char × Bool) : (cs.foldl keepSafe acc).1 = cs.reverse ++ acc.1 := by
  induction cs generalizing acc with
  | nil => simp
  | cons c cs ih =>
    have hc : isSafe c = true := h c (by simp)
    have hs : ∀ d ∈ cs, isSafe d = true := fun d hd => h d (by simp [hd])
    rw [List.foldl_cons, ih hs]
    simp [keepSafe, hc]

private theorem isSafe_of_mem_foldl (cs : List Char) (acc : List Char × Bool)
    (ha : ∀ c ∈ acc.1, isSafe c = true) : ∀ c ∈ (cs.foldl keepSafe acc).1, isSafe c = true := by
  induction cs generalizing acc with
  | nil => simpa using ha
  | cons c cs ih =>
    rw [List.foldl_cons]
    apply ih
    unfold keepSafe
    by_cases hc : isSafe c = true
    · simp only [hc, if_true, List.mem_cons, forall_eq_or_imp, true_and]
      exact ha
    · by_cases hg : acc.2 = true
      · simpa only [hc, hg, if_true, Bool.false_eq_true, if_false] using ha
      · simp only [hc, hg, Bool.false_eq_true, if_false, List.mem_cons, forall_eq_or_imp]
        exact ⟨by decide, ha⟩

theorem replaceUnsafe_of_safe {cs : List Char} (h : ∀ c ∈ cs, isSafe c = true) :
    replaceUnsafe cs = cs := by
  have hf := foldl_keepSafe_of_safe cs h ([], false)
  change (cs.foldl keepSafe ([], false)).1.reverse = cs
  rw [hf]
  simp

theorem isSafe_of_mem_replaceUnsafe {cs : List Char} {c : Char} (h : c ∈ replaceUnsafe cs) :
    isSafe c = true := by
  apply isSafe_of_mem_foldl cs ([], false) (by simp) c
  change c ∈ (cs.foldl keepSafe ([], false)).1.reverse at h
  simpa using h

private theorem dropWhile_of_head? {cs : List Char} (h : cs.head? ≠ some '_') :
    cs.dropWhile (· == '_') = cs := by
  cases cs with
  | nil => rfl
  | cons c cs =>
    have hc : c ≠ '_' := by simpa using h
    simp [hc]

private theorem head?_dropWhile (cs : List Char) :
    (cs.dropWhile (· == '_')).head? ≠ some '_' := by
  intro h
  have hnot := List.head?_dropWhile_not (· == '_') cs
  rw [h] at hnot
  simp at hnot

theorem normalize_of_clean {name : String} (h : Clean name.toList) : normalize name = name := by
  obtain ⟨hs, hh, hl⟩ := h
  have ht : name.toList.reverse.head? ≠ some '_' := by rwa [List.head?_reverse]
  simp only [normalize, replaceUnsafe_of_safe hs, dropWhile_of_head? hh, dropWhile_of_head? ht,
    List.reverse_reverse, String.ofList_toList]

theorem clean_normalize (name : String) : Clean (normalize name).toList := by
  unfold normalize
  simp only [String.toList_ofList]
  refine ⟨?_, ?_, ?_⟩
  · intro c hc
    have hm := List.mem_reverse.mp ((List.dropWhile_sublist _).subset (List.mem_reverse.mp hc))
    exact isSafe_of_mem_replaceUnsafe ((List.dropWhile_sublist _).subset hm)
  · intro hh
    rw [List.head?_reverse] at hh
    -- what is left after trimming the end still begins where the trimmed start begins
    obtain ⟨cut, hcut⟩ := List.dropWhile_suffix (l := ((replaceUnsafe name.toList).dropWhile
      (· == '_')).reverse) (· == '_')
    have hlast : ((replaceUnsafe name.toList).dropWhile (· == '_')).reverse.getLast? = some '_' := by
      rw [← hcut, List.getLast?_append, hh]
      rfl
    rw [List.getLast?_reverse] at hlast
    exact head?_dropWhile _ hlast
  · rw [List.getLast?_reverse]
    exact head?_dropWhile _

theorem normal_normalize (name : String) : Normal (normalize name) :=
  normalize_of_clean (clean_normalize name)

theorem Normal.clean {key : String} (h : Normal key) : Clean key.toList := by
  have hc := clean_normalize key
  rwa [h] at hc

theorem isSafe_of_isDigit {c : Char} (h : c.isDigit = true) : isSafe c = true := by
  simp [isSafe, Char.isAlphanum, h]

theorem isDigit_of_mem_toString {i : Nat} {c : Char} (h : c ∈ (toString i).toList) : c.isDigit = true :=
  Nat.isDigit_of_mem_toDigits (b := 10) (by decide) (by decide) (by simpa [toString, Nat.repr] using h)

theorem toString_inj {i j : Nat} (h : toString i = toString j) : i = j := by
  have hdigits : Nat.toDigits 10 i = Nat.toDigits 10 j := by
    rw [← Nat.toList_repr, ← Nat.toList_repr]
    exact congrArg String.toList h
  rw [← Nat.ofDigitChars_ten_toDigits (n := i), hdigits, Nat.ofDigitChars_ten_toDigits]

theorem isSafe_numbered {base : String} (hb : ∀ c ∈ base.toList, isSafe c = true) (i : Nat) :
    ∀ c ∈ (numbered base i).toList, isSafe c = true := by
  intro c hc
  simp only [numbered, String.toList_append, List.mem_append] at hc
  rcases hc with (hc | hc) | hc
  · exact hb c hc
  · simp at hc; subst hc; decide
  · exact isSafe_of_isDigit (isDigit_of_mem_toString hc)

theorem normal_numbered {base : String} (hb : Normal base) (hne : base ≠ "") (i : Nat) :
    Normal (numbered base i) := by
  obtain ⟨hs, hh, -⟩ := hb.clean
  have he : (toString i).toList ≠ [] := by
    simp [toString, Nat.repr]
  apply normalize_of_clean
  refine ⟨isSafe_numbered hs i, ?_, ?_⟩
  · have hbase : base.toList ≠ [] := by simpa using hne
    simp only [numbered, String.toList_append]
    rw [List.append_assoc, List.head?_append_of_ne_nil _ hbase]
    exact hh
  · intro hl
    simp only [numbered, String.toList_append] at hl
    rw [List.getLast?_append_of_ne_nil _ he] at hl
    have hm := isDigit_of_mem_toString (List.mem_of_getLast? hl)
    exact absurd hm (by decide)

end Key

theorem numbered_ne_empty (base : String) (i : Nat) : numbered base i ≠ "" := by
  simp [numbered]

theorem baseName_normal (enclosing : Option Tag) (before after : String) :
    Key.Normal (baseName enclosing before after) ∧ baseName enclosing before after ≠ "" := by
  unfold baseName
  dsimp only
  split
  · exact ⟨show Key.normalize "value" = "value" by decide +kernel, by decide⟩
  · next h => exact ⟨Key.normal_normalize _, by simpa using h⟩

theorem freeName?_free {taken : String → Bool} {base name : String}
    (h : freeName? taken base = some name) : taken name = false := by
  unfold freeName? at h
  split at h
  · obtain ⟨i, hi, rfl⟩ := Option.map_eq_some_iff.mp h
    simpa using List.find?_some hi
  · next ht =>
    cases h
    simpa using ht

theorem freeName?_normal {taken : String → Bool} {base name : String} (hb : Key.Normal base)
    (hne : base ≠ "") (h : freeName? taken base = some name) : Key.Normal name := by
  unfold freeName? at h
  split at h
  · obtain ⟨i, -, rfl⟩ := Option.map_eq_some_iff.mp h
    exact Key.normal_numbered hb hne i
  · cases h
    exact hb

theorem Record.uniqueName_spec {r : Record} {enclosing : Option Tag} {before after key : String}
    {reserved : List String} (h : r.uniqueName enclosing before after reserved = .ok key) :
    Key.Normal key ∧ key ∉ Assoc.keys r.fields ∧ key ∉ reserved := by
  unfold Record.uniqueName at h
  dsimp only at h
  split at h
  · next name hname =>
    cases h
    have hn : Key.Normal key :=
      freeName?_normal (baseName_normal _ _ _).1 (baseName_normal _ _ _).2 hname
    have hf := freeName?_free hname
    rw [Bool.or_eq_false_iff, Record.has, hn] at hf
    refine ⟨hn, ?_, ?_⟩
    · rw [← Assoc.has_iff, hf.1]
      simp
    · rw [← List.contains_iff_mem, hf.2]
      simp
  · cases h

theorem Record.uniqueName_of_free {r : Record} {enclosing : Option Tag} {before after : String}
    {reserved : List String} (hfields : baseName enclosing before after ∉ Assoc.keys r.fields)
    (hreserved : baseName enclosing before after ∉ reserved) :
    r.uniqueName enclosing before after reserved = .ok (baseName enclosing before after) := by
  have hhas : r.has (baseName enclosing before after) = false := by
    rw [Record.has, (baseName_normal _ _ _).1, ← Bool.not_eq_true, Assoc.has_iff]
    exact hfields
  have hcontains : reserved.contains (baseName enclosing before after) = false := by
    rw [← Bool.not_eq_true, List.contains_iff_mem]
    exact hreserved
  simp only [Record.uniqueName, freeName?, hhas, hcontains, Bool.or_self, Bool.false_eq_true, if_false]

end Stencil
