import Mathlib.Data.List.Basic
import Stencil.Markdown.Detect
import Stencil.Score.Basic

/-!
Runs of like elements at the front of a list, with blank texts between them. There is just one longest run, and
both ways to count one find it: the count of the elements that repeat a node and that of the blocks of Markdown.
-/

namespace Stencil

def Node.Passes (like : Node → Bool) (n : Node) : Prop :=
  n.isElement = true ∧ like n = true

/-- So many nodes at the front of a list are its longest run. The run ends with an element that the test holds of,
and behind it stand only blank texts, up to the end of the list or to a node that is part of no run. -/
structure LongestRun (like : Node → Bool) (ns : List Node) (count : Nat) : Prop where
  ends : count = 0 ∨ ∃ n ∈ ns[count - 1]?, n.Passes like
  within : ∀ n ∈ ns.take count, n.isBlankText = true ∨ n.Passes like
  stops : ∃ blanks rest, ns.drop count = blanks ++ rest ∧ (∀ n ∈ blanks, n.isBlankText = true) ∧
    ∀ n ∈ rest.head?, ¬ (n.isBlankText = true ∨ n.Passes like)

variable {like : Node → Bool} {n : Node} {ns : List Node} {count count' : Nat}

theorem Node.Passes.not_blank (h : n.Passes like) : n.isBlankText = false := by
  cases n with
  | element => rfl
  | _ => cases h.1

namespace LongestRun

theorem le_length (h : LongestRun like ns count) : count ≤ ns.length := by
  rcases h.ends with rfl | ⟨n, hn, -⟩
  · exact Nat.zero_le _
  · obtain ⟨hlt, -⟩ := List.getElem?_eq_some_iff.mp hn
    omega

theorem le (h : LongestRun like ns count) (h' : LongestRun like ns count') : count' ≤ count := by
  by_contra hlt
  obtain ⟨blanks, rest, hdrop, hblanks, hstop⟩ := h.stops
  rcases h'.ends with hzero | ⟨n, hn, hpasses⟩
  · omega
  have hlast : (blanks ++ rest)[count' - 1 - count]? = some n := by
    rw [← hdrop, List.getElem?_drop]
    have hindex : count + (count' - 1 - count) = count' - 1 := by omega
    rw [hindex]
    exact hn
  rcases Nat.lt_or_ge (count' - 1 - count) blanks.length with hblank | hbehind
  · rw [List.getElem?_append_left hblank] at hlast
    have hn := hblanks n (List.mem_of_getElem? hlast)
    rw [hpasses.not_blank] at hn
    cases hn
  -- the node behind the blank texts, where the first run stops, lies within the second one
  · rw [List.getElem?_append_right hbehind] at hlast
    cases rest with
    | nil => cases hlast
    | cons m rest =>
      refine hstop m rfl (h'.within m ?_)
      have hm : ns[count + blanks.length]? = some m := by
        rw [← List.getElem?_drop, hdrop, List.getElem?_append_right (Nat.le_refl _), Nat.sub_self]
        rfl
      rw [List.mem_take_iff_getElem]
      obtain ⟨hlength, hm⟩ := List.getElem?_eq_some_iff.mp hm
      exact ⟨count + blanks.length, by omega, hm⟩

theorem unique (h : LongestRun like ns count) (h' : LongestRun like ns count') : count' = count :=
  Nat.le_antisymm (h.le h') (h'.le h)

theorem iff (h : LongestRun like ns count) : LongestRun like ns count' ↔ count' = count :=
  ⟨h.unique, fun he => he ▸ h⟩

theorem take (h : LongestRun like ns count) : LongestRun like (ns.take count) count where
  ends := by
    rcases h.ends with hzero | ⟨n, hn, hpasses⟩
    · exact .inl hzero
    · rcases Nat.eq_zero_or_pos count with hzero | hpos
      · exact .inl hzero
      · exact .inr ⟨n, by rwa [List.getElem?_take_of_lt (by omega)], hpasses⟩
  within := by
    rw [List.take_take, Nat.min_self]
    exact h.within
  stops := ⟨[], [], by simp, by simp, by simp⟩

theorem cut (h : LongestRun like ns count) :
    LongestRun like (ns.take count ++ ns.drop count) (ns.take count).length := by
  rwa [List.take_append_drop, List.length_take_of_le h.le_length]

theorem pos (h : LongestRun like (n :: ns) count) (hn : n.Passes like) : 0 < count := by
  by_contra hzero
  obtain rfl : count = 0 := by omega
  obtain ⟨blanks, rest, hdrop, hblanks, hstop⟩ := h.stops
  cases blanks with
  | nil =>
    rw [List.nil_append] at hdrop
    exact hstop n (hdrop ▸ rfl) (.inr hn)
  | cons m blanks =>
    obtain ⟨rfl, -⟩ := List.cons.inj hdrop
    have hblank := hblanks n List.mem_cons_self
    rw [hn.not_blank] at hblank
    cases hblank

theorem nil : LongestRun like [] 0 :=
  ⟨.inl rfl, by simp, [], [], rfl, by simp, by simp⟩

theorem cons_stop (hn : ¬ (n.isBlankText = true ∨ n.Passes like)) : LongestRun like (n :: ns) 0 := by
  refine ⟨.inl rfl, by simp, [], n :: ns, rfl, by simp, ?_⟩
  rintro m ⟨⟩
  exact hn

theorem cons_blank (hn : n.isBlankText = true) (h : LongestRun like ns count) :
    LongestRun like (n :: ns) (if count = 0 then 0 else count + 1) := by
  split
  · next hzero =>
    subst hzero
    obtain ⟨blanks, rest, hdrop, hblanks, hstop⟩ := h.stops
    refine ⟨.inl rfl, by simp, n :: blanks, rest, congrArg (n :: ·) hdrop, ?_, hstop⟩
    exact List.forall_mem_cons.mpr ⟨hn, hblanks⟩
  · next hpos =>
    refine ⟨.inr ?_, List.forall_mem_cons.mpr ⟨.inl hn, h.within⟩, h.stops⟩
    obtain ⟨k, rfl⟩ := Nat.exists_eq_succ_of_ne_zero hpos
    exact h.ends.resolve_left hpos

theorem cons_passes (hn : n.Passes like) (h : LongestRun like ns count) :
    LongestRun like (n :: ns) (count + 1) := by
  refine ⟨.inr ?_, List.forall_mem_cons.mpr ⟨.inr hn, h.within⟩, h.stops⟩
  cases count with
  | zero => exact ⟨n, rfl, hn⟩
  | succ k => exact h.ends.resolve_left (Nat.succ_ne_zero k)

end LongestRun

namespace Score

def repeatsWhere (like : Node → Bool) (position last : Nat) : List Node → Nat
  | [] => last
  | n :: rest =>
    match n with
    | .literal .text v => if Text.allBlank v then repeatsWhere like (position + 1) last rest else last
    | .element _ _ => if like n then repeatsWhere like (position + 1) (position + 1) rest else last
    | _ => last

theorem exists_longestRun (like : Node → Bool) (position last : Nat) (ns : List Node) :
    ∃ count, LongestRun like ns count ∧
      repeatsWhere like position last ns = if count = 0 then last else position + count := by
  fun_induction repeatsWhere like position last ns with
  | case1 => exact ⟨0, .nil, rfl⟩
  | case2 position last rest v hblank ih =>
    obtain ⟨count, hrun, hcount⟩ := ih
    refine ⟨_, hrun.cons_blank hblank, ?_⟩
    rw [hcount]
    by_cases hzero : count = 0
    · rw [if_pos hzero, if_pos hzero, if_pos rfl]
    · rw [if_neg hzero, if_neg hzero, if_neg (Nat.succ_ne_zero count), Nat.add_assoc, Nat.add_comm 1]
  | case3 position last rest v hblank =>
    refine ⟨0, .cons_stop ?_, rfl⟩
    rintro (h | h)
    · exact hblank h
    · cases h.1
  | case4 position last rest tag cs hlike ih =>
    obtain ⟨count, hrun, hcount⟩ := ih
    refine ⟨_, hrun.cons_passes ⟨rfl, hlike⟩, ?_⟩
    rw [if_pos hlike, hcount, if_neg (Nat.succ_ne_zero count)]
    split
    · next hzero => rw [hzero]
    · rw [Nat.add_assoc, Nat.add_comm 1]
  | case5 position last rest tag cs hlike =>
    refine ⟨0, .cons_stop ?_, if_neg hlike⟩
    rintro (h | h)
    · cases h
    · exact hlike h.2
  | case6 position last n rest htext helement =>
    refine ⟨0, .cons_stop ?_, rfl⟩
    rintro (h | h)
    · cases n with
      | literal k v =>
        cases k with
        | text => exact htext v rfl
        | _ => cases h
      | _ => cases h
    · cases n with
      | element tag cs => exact helement tag cs rfl
      | _ => cases h.1

theorem longestRun_repeatsWhere (like : Node → Bool) (ns : List Node) :
    LongestRun like ns (repeatsWhere like 0 0 ns) := by
  obtain ⟨count, hrun, hcount⟩ := exists_longestRun like 0 0 ns
  rw [hcount]
  split
  · next hzero => rwa [hzero] at hrun
  · rwa [Nat.zero_add]

variable {α : Type} [Grade α]

theorem repeatsFrom_eq (current : Node) (position last : Nat) (ns : List Node) :
    repeatsFrom (α := α) current position last ns =
      repeatsWhere (reachesThreshold (α := α) current) position last ns := by
  induction ns generalizing position last with
  | nil => rfl
  | cons n ns ih =>
    cases n with
    | literal k v => cases k <;> simp only [repeatsFrom, repeatsWhere, ih]
    | _ => simp only [repeatsFrom, repeatsWhere, ih]

theorem longestRun_repeats (current : Node) (ns : List Node) :
    LongestRun (reachesThreshold (α := α) current) ns (repeats (α := α) current ns) := by
  rw [repeats, repeatsFrom_eq]
  exact longestRun_repeatsWhere _ ns

end Score

namespace Markdown

theorem passes_isBlock (h : isBlock n = true) : n.Passes isBlock := by
  refine ⟨?_, h⟩
  cases n with
  | element => rfl
  | _ => cases h

theorem runFrom_eq (position last : Nat) (ns : List Node) :
    runFrom position last ns = Score.repeatsWhere isBlock position last ns := by
  induction ns generalizing position last with
  | nil => rfl
  | cons n ns ih =>
    rw [runFrom, ih, ih]
    cases n with
    | literal k v => cases k <;> rfl
    | _ => rfl

theorem longestRun_run (ns : List Node) : LongestRun isBlock ns (run ns) := by
  rw [run, runFrom_eq]
  exact Score.longestRun_repeatsWhere _ ns

theorem run_pos {n : Node} {rest : List Node} (h : isBlock n = true) : 0 < run (n :: rest) :=
  (longestRun_run _).pos (passes_isBlock h)

theorem run_pos_of_head (h : (ns.head?.map isBlock).getD false = true) : 0 < run ns := by
  cases ns with
  | nil => cases h
  | cons n rest => exact run_pos h

theorem run_take (ns : List Node) : run (ns.take (run ns)) = run ns :=
  (longestRun_run ns).take.unique (longestRun_run _)

def frontLength : List Node → Nat
  | .slot .markdown _ :: _ => 1
  | ns => run ns

theorem frontLength_of_slot {r : Reference} (h : ns.head? = some (.slot .markdown r)) : frontLength ns = 1 := by
  cases ns <;> cases h
  rfl

theorem frontLength_of_block (h : (ns.head?.map isBlock).getD false = true) : frontLength ns = run ns := by
  unfold frontLength
  split
  · cases h
  · rfl

end Markdown

end Stencil
