import Mathlib.Data.List.DropRight
import Stencil.Text.Blank

namespace Stencil.Text

theorem forall_ascii {P : Char → Prop} (h : ∀ n : Fin 128, P (Char.ofNat n)) {c : Char}
    (hc : c.toNat < 128) : P c := by
  have hn := h ⟨c.toNat, hc⟩
  rwa [Char.ofNat_toNat] at hn

theorem ascii_of_isAlphanum {c : Char} (h : c.isAlphanum = true) : c.toNat < 128 := by
  change ((decide ('A'.val ≤ c.val ∧ c.val ≤ 'Z'.val) || (decide ('a'.val ≤ c.val) && decide (c.val ≤ 'z'.val))) ||
    (decide ('0'.val ≤ c.val) && decide (c.val ≤ '9'.val))) = true at h
  simp only [Bool.or_eq_true, Bool.and_eq_true, decide_eq_true_eq, UInt32.le_iff_toNat_le] at h
  have hn : c.toNat = c.val.toNat := rfl
  simp at h
  omega

theorem dropTrailing_eq (p : Char → Bool) (cs : List Char) : dropTrailing p cs = cs.rdropWhile p :=
  rfl

theorem dropWhile_again {p : Char → Bool} {cs ds : List Char} (h : ds <+: cs.dropWhile p) :
    ds.dropWhile p = ds := by
  cases ds with
  | nil => rfl
  | cons d ds =>
    obtain ⟨rest, hrest⟩ := h
    have hd : p d = false := by
      have hhead := List.head?_dropWhile_not p cs
      rw [← hrest] at hhead
      simpa using hhead
    rw [List.dropWhile_cons_of_neg (by simp [hd])]

theorem strip_strip (s : String) : strip (strip s) = strip s := by
  simp only [strip, trimWhere, String.toList_ofList, dropTrailing_eq]
  rw [dropWhile_again (List.rdropWhile_prefix ..), List.rdropWhile_idempotent]

theorem isEmpty_strip (s : String) : (strip s).isEmpty = allBlank s := by
  rw [Bool.eq_iff_iff, String.isEmpty_iff, strip, trimWhere, dropTrailing_eq, allBlank,
    List.all_eq_true]
  rw [← String.toList_inj, String.toList_ofList, String.toList_empty, List.rdropWhile_eq_nil_iff]
  constructor
  · intro h
    have hnil : s.toList.dropWhile isBlank = [] := by
      rcases hcs : s.toList.dropWhile isBlank with _ | ⟨c, cs⟩
      · rfl
      · have hhead := List.head?_dropWhile_not isBlank s.toList
        rw [hcs] at h hhead
        have hblank := h c List.mem_cons_self
        simp [hblank] at hhead
    exact List.dropWhile_eq_nil_iff.mp hnil
  · intro h
    rw [List.dropWhile_eq_nil_iff.mpr h]
    exact fun _ hc => absurd hc List.not_mem_nil

section Split

variable {p : Char → Bool} {c : Char} {cs ds : List Char}

theorem splitWhere_ne_nil (p : Char → Bool) (cs : List Char) : splitWhere p cs ≠ [] := by
  cases cs with
  | nil => exact List.cons_ne_nil _ _
  | cons c cs =>
    rw [splitWhere, List.foldr_cons]
    split
    · split <;> exact List.cons_ne_nil _ _
    · exact List.cons_ne_nil _ _

theorem splitWhere_cons_of_pos (hc : p c = true) : splitWhere p (c :: cs) = [] :: splitWhere p cs := by
  obtain ⟨piece, rest, hrest⟩ := List.exists_cons_of_ne_nil (splitWhere_ne_nil p cs)
  rw [hrest]
  rw [splitWhere] at hrest ⊢
  rw [List.foldr_cons, hrest]
  simp [hc]

theorem splitWhere_cons_of_neg (hc : p c = false) {piece : List Char} {rest : List (List Char)}
    (h : splitWhere p cs = piece :: rest) : splitWhere p (c :: cs) = (c :: piece) :: rest := by
  rw [splitWhere] at h ⊢
  rw [List.foldr_cons, h]
  simp [hc]

theorem splitWhere_append (hc : p c = true) :
    splitWhere p (cs ++ c :: ds) = splitWhere p cs ++ splitWhere p ds := by
  induction cs with
  | nil => exact splitWhere_cons_of_pos hc
  | cons d cs ih =>
    by_cases hd : p d = true
    · rw [List.cons_append, splitWhere_cons_of_pos hd, ih, splitWhere_cons_of_pos hd, List.cons_append]
    · rw [Bool.not_eq_true] at hd
      obtain ⟨piece, rest, hrest⟩ := List.exists_cons_of_ne_nil (splitWhere_ne_nil p cs)
      rw [hrest, List.cons_append] at ih
      rw [List.cons_append, splitWhere_cons_of_neg hd ih, splitWhere_cons_of_neg hd hrest, List.cons_append]

theorem splitWhere_of_forall (h : ∀ c ∈ cs, p c = false) : splitWhere p cs = [cs] := by
  induction cs with
  | nil => rfl
  | cons c cs ih =>
    apply splitWhere_cons_of_neg (h c List.mem_cons_self)
    exact ih fun d hd => h d (List.mem_cons_of_mem _ hd)

end Split

end Stencil.Text
