import Mathlib.Data.List.Basic
import Mathlib.Tactic.ByContra
import Stencil.Hugo.Template

namespace Stencil.Hugo

def brace : Char := '\x7b'

def delimiter : List Char := [brace, brace]

def openings (cs : List Char) : List Nat :=
  (List.range cs.length).filter fun i => delimiter.isPrefixOf (cs.drop i)

def Delimited (s : String) : Prop :=
  delimiter <:+: s.toList

def Meet (xs ys : List Char) : Prop :=
  xs.getLast? = some brace ∧ ys.head? = some brace

instance (xs ys : List Char) : Decidable (Meet xs ys) :=
  inferInstanceAs (Decidable (_ ∧ _))

variable {c : Char} {xs ys zs : List Char}

theorem delimiter_prefix_cons : delimiter <+: c :: xs ↔ c = brace ∧ xs.head? = some brace := by
  cases xs <;> simp [delimiter, List.cons_prefix_cons, eq_comm]

@[simp] theorem openings_nil : openings [] = [] :=
  rfl

theorem openings_cons :
    openings (c :: xs) =
      (if c = brace ∧ xs.head? = some brace then [0] else []) ++ (openings xs).map (· + 1) := by
  have hfirst : delimiter.isPrefixOf (c :: xs) = decide (c = brace ∧ xs.head? = some brace) := by
    rw [Bool.eq_iff_iff, List.isPrefixOf_iff_prefix, decide_eq_true_iff, delimiter_prefix_cons]
  rw [openings, List.length_cons, List.range_succ_eq_map, List.filter_cons, List.filter_map, List.drop_zero,
    hfirst, openings]
  split <;> simp_all [Function.comp_def]

theorem mem_openings {i : Nat} : i ∈ openings xs ↔ delimiter <+: xs.drop i := by
  rw [openings, List.mem_filter, List.mem_range, List.isPrefixOf_iff_prefix]
  refine and_iff_right_of_imp fun h => ?_
  have hlength := h.length_le
  rw [List.length_drop] at hlength
  simp only [delimiter, List.length_cons, List.length_nil] at hlength
  omega

theorem openings_eq_nil_iff {s : String} : openings s.toList = [] ↔ ¬Delimited s := by
  rw [List.eq_nil_iff_forall_not_mem, Delimited, List.infix_iff_prefix_suffix, not_exists]
  constructor
  · rintro h t ⟨hpre, hsuf⟩
    apply h (s.toList.length - t.length)
    rw [mem_openings, ← List.suffix_iff_eq_drop.mp hsuf]
    exact hpre
  · intro h i hi
    exact h _ ⟨mem_openings.mp hi, List.drop_suffix i _⟩

instance (s : String) : Decidable (Delimited s) :=
  decidable_of_iff (openings s.toList ≠ []) (by rw [Ne, openings_eq_nil_iff, not_not])

theorem openings_append :
    openings (xs ++ ys) =
      openings xs ++ (if Meet xs ys then [xs.length - 1] else []) ++ (openings ys).map (· + xs.length) := by
  induction xs with
  | nil => simp [Meet]
  | cons c xs ih =>
    rw [List.cons_append, openings_cons, openings_cons, ih]
    cases xs with
    | nil => simp [Meet]
    | cons x xs =>
      have hmeet : Meet (c :: x :: xs) ys ↔ Meet (x :: xs) ys := by
        rw [Meet, List.getLast?_cons_cons, Meet]
      simp only [hmeet, List.cons_append, List.head?_cons, List.map_append, List.map_map, Function.comp_def,
        List.append_assoc, List.length_cons, Nat.add_assoc]
      by_cases h : Meet (x :: xs) ys
      · rw [if_pos h, if_pos h]
        rfl
      · rw [if_neg h, if_neg h]
        rfl

theorem openings_append_eq_nil_iff :
    openings (xs ++ ys) = [] ↔ openings xs = [] ∧ openings ys = [] ∧ ¬Meet xs ys := by
  rw [openings_append]
  simp [and_comm]

theorem openings_eq_nil_of_not_mem (h : brace ∉ xs) : openings xs = [] := by
  rw [List.eq_nil_iff_forall_not_mem]
  intro i hi
  have hpre := mem_openings.mp hi
  exact h (List.mem_of_mem_drop (hpre.mem List.mem_cons_self))

theorem not_meet_of_last (h : xs.getLast? ≠ some brace) : ¬Meet xs ys :=
  fun hmeet => h hmeet.1

theorem not_meet_of_head (h : ys.head? ≠ some brace) : ¬Meet xs ys :=
  fun hmeet => h hmeet.2

theorem head?_append_ne (hx : xs.head? ≠ some brace) (hy : ys.head? ≠ some brace) :
    (xs ++ ys).head? ≠ some brace := by
  cases xs with
  | nil => exact hy
  | cons _ _ => exact hx

theorem meet_append_left (h : ys ≠ []) : Meet (xs ++ ys) zs ↔ Meet ys zs := by
  rw [Meet, List.getLast?_append_of_ne_nil _ h, Meet]

theorem meet_append_right (h : ys ≠ []) : Meet xs (ys ++ zs) ↔ Meet xs ys := by
  rw [Meet, List.head?_append_of_ne_nil _ h, Meet]

theorem meet_assoc : Meet xs (ys ++ zs) ∨ Meet ys zs ↔ Meet xs ys ∨ Meet (xs ++ ys) zs := by
  by_cases h : ys = []
  · subst h
    simp [Meet]
  · rw [meet_append_left h, meet_append_right h]

section Texts

variable {a b s t : String}

theorem delimited_append : Delimited (s ++ t) ↔ Delimited s ∨ Delimited t ∨ Meet s.toList t.toList := by
  rw [← not_iff_not, ← openings_eq_nil_iff, String.toList_append, openings_append_eq_nil_iff,
    openings_eq_nil_iff, openings_eq_nil_iff, not_or, not_or]

theorem not_delimited (h : brace ∉ s.toList) : ¬Delimited s :=
  openings_eq_nil_iff.mp (openings_eq_nil_of_not_mem h)

theorem delimited_after (h : brace ∉ a.toList) : Delimited (a ++ s) ↔ Delimited s := by
  have hmeet : ¬Meet a.toList s.toList :=
    not_meet_of_last fun hlast => h (List.mem_of_getLast? hlast)
  rw [delimited_append, or_iff_left hmeet, or_iff_right (not_delimited h)]

theorem delimited_before (h : brace ∉ b.toList) : Delimited (s ++ b) ↔ Delimited s := by
  have hmeet : ¬Meet s.toList b.toList :=
    not_meet_of_head fun hhead => h (List.mem_of_head? hhead)
  rw [delimited_append, or_iff_left hmeet, or_iff_left (not_delimited h)]

theorem delimited_around (h : brace ∉ a.toList) (hne : a.toList ≠ []) :
    Delimited (s ++ a ++ t) ↔ Delimited s ∨ Delimited t := by
  have hmeet : ¬Meet (s ++ a).toList t.toList := by
    rw [String.toList_append, meet_append_left hne]
    exact not_meet_of_last fun hlast => h (List.mem_of_getLast? hlast)
  rw [delimited_append, delimited_before h, or_iff_left hmeet]

end Texts

structure Spares (f : Char → List Char) : Prop where
  brace_eq : f brace = [brace]
  ne_nil : ∀ c, f c ≠ []
  not_mem : ∀ c, c ≠ brace → brace ∉ f c

namespace Spares

variable {f : Char → List Char} (hf : Spares f)

include hf

theorem head?_iff : (f c ++ ys).head? = some brace ↔ c = brace := by
  rw [List.head?_append_of_ne_nil _ (hf.ne_nil c)]
  constructor
  · intro h
    by_contra hc
    exact hf.not_mem c hc (List.mem_of_head? h)
  · rintro rfl
    rw [hf.brace_eq]
    rfl

theorem getLast?_iff : (f c).getLast? = some brace ↔ c = brace := by
  constructor
  · intro h
    by_contra hc
    exact hf.not_mem c hc (List.mem_of_getLast? h)
  · rintro rfl
    rw [hf.brace_eq]
    rfl

theorem flatMap_eq_nil_iff (xs : List Char) : xs.flatMap f = [] ↔ xs = [] := by
  cases xs with
  | nil => exact Iff.rfl
  | cons c xs => simp [hf.ne_nil c]

theorem head?_flatMap (xs : List Char) : (xs.flatMap f).head? = some brace ↔ xs.head? = some brace := by
  cases xs with
  | nil => rfl
  | cons c xs =>
    rw [List.flatMap_cons, hf.head?_iff, List.head?_cons, Option.some_inj]

theorem getLast?_flatMap (xs : List Char) :
    (xs.flatMap f).getLast? = some brace ↔ xs.getLast? = some brace := by
  rcases List.eq_nil_or_concat' xs with rfl | ⟨init, c, rfl⟩
  · rfl
  · rw [List.flatMap_append, List.flatMap_singleton, List.getLast?_append_of_ne_nil _ (hf.ne_nil c),
      hf.getLast?_iff, List.getLast?_concat, Option.some_inj]

theorem openings_eq_nil (c : Char) : openings (f c) = [] := by
  by_cases hc : c = brace
  · rw [hc, hf.brace_eq]
    rfl
  · exact openings_eq_nil_of_not_mem (hf.not_mem c hc)

theorem openings_flatMap (xs : List Char) : openings (xs.flatMap f) = [] ↔ openings xs = [] := by
  induction xs with
  | nil => rfl
  | cons c xs ih =>
    have hmeet : Meet (f c) (xs.flatMap f) ↔ Meet [c] xs := by
      rw [Meet, hf.getLast?_iff, hf.head?_flatMap, Meet, List.getLast?_singleton, Option.some_inj]
    have hone : openings [c] = [] := by
      simp [openings_cons]
    have hsplit : openings ([c] ++ xs) = [] ↔ openings [c] = [] ∧ openings xs = [] ∧ ¬Meet [c] xs :=
      openings_append_eq_nil_iff
    rw [List.singleton_append, hone] at hsplit
    rw [List.flatMap_cons, openings_append_eq_nil_iff, hf.openings_eq_nil, ih, hmeet, hsplit]

end Spares

theorem spares_escapeTextChar : Spares fun c => (Markup.escapeTextChar c).toList where
  brace_eq := rfl
  ne_nil c := by
    unfold Markup.escapeTextChar
    split <;> simp
  not_mem c hc := by
    unfold Markup.escapeTextChar
    split
    · decide
    · decide
    · decide
    · simpa using Ne.symm hc

theorem spares_escapeValueChar : Spares fun c => (Markup.escapeValueChar c).toList where
  brace_eq := rfl
  ne_nil c := by
    unfold Markup.escapeValueChar
    split
    · simp
    · simp
    · exact spares_escapeTextChar.ne_nil c
  not_mem c hc := by
    unfold Markup.escapeValueChar
    split
    · decide
    · decide
    · exact spares_escapeTextChar.not_mem c hc

theorem toList_escapeText (s : String) :
    (Markup.escapeText s).toList = s.toList.flatMap fun c => (Markup.escapeTextChar c).toList := by
  rw [Markup.escapeText, String.toList_join, List.flatMap_map]

theorem toList_escapeValue (s : String) :
    (Markup.escapeValue s).toList = s.toList.flatMap fun c => (Markup.escapeValueChar c).toList := by
  rw [Markup.escapeValue, String.toList_join, List.flatMap_map]

theorem delimited_escapeText (s : String) : Delimited (Markup.escapeText s) ↔ Delimited s := by
  rw [← not_iff_not, ← openings_eq_nil_iff, ← openings_eq_nil_iff, toList_escapeText,
    spares_escapeTextChar.openings_flatMap]

theorem delimited_escapeValue (s : String) : Delimited (Markup.escapeValue s) ↔ Delimited s := by
  rw [← not_iff_not, ← openings_eq_nil_iff, ← openings_eq_nil_iff, toList_escapeValue,
    spares_escapeValueChar.openings_flatMap]

end Stencil.Hugo
