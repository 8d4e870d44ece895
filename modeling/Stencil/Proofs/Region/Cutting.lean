import Stencil.Proofs.Region.Marks

namespace Stencil

namespace Page

open Node

variable {m : RegionMarks} {n converted : Node} {r : List Node} {rs : List (List Node)} {current : Option (List Node)}

namespace Cut

variable {c d : Cut}

def marks (c : Cut) : Nat :=
  contentMarksOfList c.kept + contentMarksOfList (c.found.getD []) +
    if c.reading then contentMarksOfList c.taken else 0

def due (c : Cut) (rs : List (List Node)) : Nat :=
  c.found.isSome.toNat + if c.taken.isEmpty then (filled rs).length else rs.length

structure Follows (current : Option (List Node)) (c : Cut) : Prop where
  reading : c.reading = current.isSome
  kept : current.isSome = true → c.kept ≠ []
  blank : ∀ r, current = some r → c.taken = [] → r.all isBlankText = true
  found : current = none → c.taken = [] ∨ c.found.isSome = true

theorem due_of_taken (h : c.taken ≠ []) : c.due rs = c.found.isSome.toNat + rs.length := by
  rw [due, if_neg (by rwa [List.isEmpty_iff])]

theorem due_of_untaken (h : c.taken = []) : c.due rs = c.found.isSome.toNat + (filled rs).length := by
  rw [due, if_pos (by rwa [List.isEmpty_iff])]

def Stopped (r : List Node) (c : Cut) : Except Failure Cut → Prop
  | .ok d => Follows none d ∧ d.marks = c.marks ∧ ∀ rs, d.due rs = c.due (r :: rs)
  | .error f => f = .secondRegion ∧ ∀ rs, 2 ≤ c.due (r :: rs)

theorem follows_of_found (hreading : c.reading = false) (hfound : c.found.isSome = true) : Follows none c :=
  ⟨hreading, by simp, by simp, fun _ => .inr hfound⟩

theorem due_of_found_first (hc : c.taken ≠ []) (hd : d.taken ≠ []) (hnone : c.found = none)
    (hfound : d.found.isSome = true) : d.due rs = c.due (r :: rs) := by
  rw [due_of_taken hd, due_of_taken hc, hfound, hnone, Option.isSome_none, Bool.toNat_true, Bool.toNat_false,
    List.length_cons, Nat.zero_add, Nat.add_comm]

theorem stop_spec (h : Follows (some r) c) : Stopped r c c.stop := by
  obtain ⟨kept, taken, reading, found⟩ := c
  obtain rfl : reading = true := h.reading
  cases taken with
  | nil =>
    refine ⟨⟨rfl, by simp, by simp, fun _ => .inl rfl⟩, by simp [marks, contentMarksOfList], fun rs => ?_⟩
    rw [due_of_untaken rfl, due_of_untaken rfl, filled_cons_of_blank (h.blank r rfl rfl)]
  | cons last rest =>
    have htaken : last :: rest ≠ [] := List.cons_ne_nil _ _
    cases found with
    | some _ =>
      refine ⟨rfl, fun rs => ?_⟩
      rw [due_of_taken htaken, Option.isSome_some, Bool.toNat_true, List.length_cons]
      omega
    | none =>
      simp only [stop]
      split
      next hlast =>
        refine ⟨follows_of_found rfl rfl, ?_, fun rs => due_of_found_first htaken (List.cons_ne_nil _ _) rfl rfl⟩
        simp [marks, contentMarksOfList, contentMarksOfList_append, contentMarksOfList_reverse,
          contentMarks_of_isBlankText hlast, Node.contentMarks]
      next =>
        refine ⟨follows_of_found rfl rfl, ?_, fun rs => due_of_found_first htaken htaken rfl rfl⟩
        simp [marks, contentMarksOfList, contentMarksOfList_append, contentMarksOfList_reverse]
        omega

theorem put_of_not_reading (h : c.reading = false) : c.put n = { c with kept := n :: c.kept } := by
  rw [put, h, if_neg Bool.false_ne_true]

theorem put_found (c : Cut) (n : Node) : (c.put n).found = c.found := by
  unfold put
  split
  · split <;> rfl
  · rfl

theorem put_reading (c : Cut) (n : Node) : (c.put n).reading = c.reading := by
  unfold put
  split
  · split <;> rfl
  · rfl

theorem put_marks (c : Cut) (n : Node) : (c.put n).marks = c.marks + n.contentMarks := by
  unfold put
  split
  next hreading =>
    split <;> simp_all [marks, contentMarksOfList] <;> omega
  next hreading =>
    simp_all [marks, contentMarksOfList]
    omega

theorem put_taken (h : Follows (some r) c) :
    (c.put n).taken = if n.isBlankText && c.taken.isEmpty then c.taken else n :: c.taken := by
  obtain ⟨mark, rest, hkept⟩ := List.exists_cons_of_ne_nil (h.kept rfl)
  have hreading : c.reading = true := h.reading
  unfold put
  rw [if_pos hreading, hkept]
  cases n.isBlankText && c.taken.isEmpty <;> rfl

theorem put_kept (h : c.kept ≠ []) : (c.put n).kept ≠ [] := by
  unfold put
  split
  · split
    · exact List.cons_ne_nil _ _
    · exact h
  · exact List.cons_ne_nil _ _

theorem Follows.put (h : Follows current c) (hblank : converted.isBlankText = n.isBlankText) :
    Follows (current.map (· ++ [n])) (c.put converted) where
  reading := by rw [put_reading, h.reading, Option.isSome_map]
  kept hopen := put_kept (h.kept (by rwa [Option.isSome_map] at hopen))
  blank := by
    intro r hr htaken
    obtain ⟨r, rfl, rfl⟩ := Option.map_eq_some_iff.mp hr
    rw [put_taken h] at htaken
    split at htaken
    next hn =>
      rw [Bool.and_eq_true, hblank] at hn
      rw [List.all_append, h.blank r rfl htaken, List.all_cons, hn.1]
      rfl
    next => cases htaken
  found hnone := by
    rw [Option.map_eq_none_iff] at hnone
    subst hnone
    rw [put_found, put_of_not_reading h.reading]
    exact h.found rfl

theorem Follows.put_due (h : Follows current c) (hblank : converted.isBlankText = n.isBlankText)
    (hrs : GoesOn (current.map (· ++ [n])) rs) : (c.put converted).due rs = c.due rs := by
  cases current with
  | none => rw [due, put_found, put_of_not_reading h.reading, due]
  | some r =>
    have htaken := put_taken (n := converted) h
    split at htaken
    next => rw [due, due, put_found, htaken]
    next hn =>
      -- the first node that is not blank decides that the open region counts
      by_cases hempty : c.taken = []
      · obtain ⟨rest, later, rfl⟩ := hrs _ rfl
        have hshows : n.isBlankText = false := by
          simpa [hempty, hblank] using hn
        have hfilled : (r ++ [n] ++ rest).all isBlankText = false := by
          simp [hshows]
        rw [due_of_taken (by rw [htaken]; exact List.cons_ne_nil _ _), due_of_untaken hempty, put_found,
          filled_cons_of_not_blank hfilled]
      · rw [due_of_taken (by rw [htaken]; exact List.cons_ne_nil _ _), due_of_taken hempty, put_found]

theorem start_follows : Follows (some []) c.start where
  reading := rfl
  kept _ := List.cons_ne_nil _ _
  blank := by
    intro r hr _
    cases hr
    rfl
  found := nofun

theorem start_marks (h : Follows none c) (hrs : rs ≠ []) (hdue : c.due rs ≤ 1) : c.start.marks = c.marks + 1 := by
  -- had something been taken before, this region would be the second one
  have htaken : c.taken = [] := by
    by_contra hne
    have hfound := (h.found rfl).resolve_left hne
    rw [due_of_taken hne, hfound, Bool.toNat_true] at hdue
    have := List.length_pos_of_ne_nil hrs
    omega
  have hreading : c.reading = false := h.reading
  simp [marks, Cut.start, htaken, hreading, contentMarksOfList, Node.contentMarks]
  omega

theorem Follows.found_grows {found : Option (List Node)} {a : Nat} (h : Follows current c)
    (hfound : found.isSome.toNat = c.found.isSome.toNat + a) : Follows current { c with found } := by
  refine ⟨h.reading, h.kept, h.blank, fun hnone => (h.found hnone).imp_right fun hsome => ?_⟩
  rw [hsome, Bool.toNat_true] at hfound
  cases found with
  | none => rw [Option.isSome_none, Bool.toNat_false] at hfound; omega
  | some _ => rfl

theorem due_found {found : Option (List Node)} {a : Nat}
    (hfound : found.isSome.toNat = c.found.isSome.toNat + a) (rs : List (List Node)) :
    due { c with found } rs = c.due rs + a := by
  rw [due, due, hfound]
  exact Nat.add_right_comm ..

def advance (m : RegionMarks) (here : Option Locus) (converted : Node) (c : Cut) : Except Failure Cut := do
  let c ← if c.reading && here.any m.before then c.stop else .ok c
  let c := c.put converted
  return if !c.reading && here.any m.after then c.start else c

def Advanced (current : Option (List Node)) (ended : List (List Node)) (next : Option (List Node)) (n : Node)
    (c : Cut) : Except Failure Cut → Prop
  | .ok d => Follows next d ∧ ∀ rs, GoesOn next rs → d.due rs = c.due (ended ++ rs) ∧
      (d.due rs ≤ 1 → d.marks + current.isSome.toNat =
        c.marks + n.contentMarks + ended.length + next.isSome.toNat)
  | .error f => f = .secondRegion ∧ ∀ rs, GoesOn next rs → 2 ≤ c.due (ended ++ rs)

theorem advance_of_not_reading {here : Option Locus} (h : c.reading = false) :
    advance m here n c = .ok (if here.any m.after then (c.put n).start else c.put n) := by
  simp [advance, h, put_reading, bind, Except.bind, pure, Except.pure]

theorem advance_of_goesOn {here : Option Locus} (h : c.reading = true) (hgoes : here.any m.before = false) :
    advance m here n c = .ok (c.put n) := by
  simp [advance, h, hgoes, put_reading, bind, Except.bind, pure, Except.pure]

theorem advance_of_ends {here : Option Locus} (h : c.reading = true) (hends : here.any m.before = true)
    (hstop : c.stop = .ok d) (hd : d.reading = false) : advance m here n c = advance m here n d := by
  simp [advance, h, hends, hstop, hd, bind, Except.bind]

theorem advance_outside (here : Option Locus) (h : Follows none c)
    (hblank : converted.isBlankText = n.isBlankText) :
    Advanced none [] (passChild m here n none).2 converted c (advance m here converted c) := by
  have hput := h.put hblank
  rw [advance_of_not_reading h.reading, passChild_none]
  cases here.any m.after with
  | true =>
    refine ⟨start_follows, fun rs hrs => ⟨h.put_due hblank nofun, fun hdue => ?_⟩⟩
    obtain ⟨rest, later, rfl⟩ := hrs [] rfl
    rw [if_pos rfl, start_marks hput (List.cons_ne_nil _ _) hdue, put_marks]
    rfl
  | false => exact ⟨hput, fun rs hrs => ⟨h.put_due hblank nofun, fun _ => put_marks c converted⟩⟩

theorem advance_inside (here : Option Locus) (h : Follows (some r) c)
    (hblank : converted.isBlankText = n.isBlankText) (hgoes : here.any m.before = false) :
    Advanced (some r) [] (some (r ++ [n])) converted c (advance m here converted c) := by
  rw [advance_of_goesOn h.reading hgoes]
  refine ⟨h.put hblank, fun rs hrs => ⟨h.put_due hblank hrs, fun _ => ?_⟩⟩
  rw [put_marks]
  rfl

theorem advance_spec (here : Option Locus) (h : Follows current c)
    (hblank : converted.isBlankText = n.isBlankText) :
    Advanced current (passChild m here n current).1 (passChild m here n current).2 converted c
      (advance m here converted c) := by
  cases current with
  | none =>
    have hspec := advance_outside (m := m) here h hblank
    rwa [passChild_none] at hspec ⊢
  | some r =>
    cases hends : here.any m.before with
    | false =>
      rw [passChild_of_goesOn hends]
      exact advance_inside here h hblank hends
    | true =>
      have hreading : c.reading = true := h.reading
      have hstop := stop_spec h
      cases hc : c.stop with
      | error f =>
        rw [hc] at hstop
        rw [passChild_of_ends hends, advance, hreading, hends, Bool.and_self, if_pos rfl, hc]
        exact ⟨hstop.1, fun rs _ => hstop.2 rs⟩
      | ok d =>
        rw [hc] at hstop
        obtain ⟨hfollows, hmarks, hdue⟩ := hstop
        have hd : d.reading = false := hfollows.reading
        have hadvance : advance m here converted c = advance m here converted d := advance_of_ends hreading hends hc hd
        have hspec := advance_outside (m := m) here hfollows hblank
        rw [passChild_of_ends hends, hadvance]
        rw [passChild_none] at hspec
        cases hlast : advance m here converted d with
        | error f =>
          rw [hlast] at hspec
          exact ⟨hspec.1, fun rs hrs => Nat.le_trans (hspec.2 rs hrs) (Nat.le_of_eq (hdue rs))⟩
        | ok e =>
          rw [hlast] at hspec
          refine ⟨hspec.1, fun rs hrs => ⟨(hspec.2 rs hrs).1.trans (hdue rs), fun hle => ?_⟩⟩
          have hnext := (hspec.2 rs hrs).2 hle
          rw [hmarks] at hnext
          simp only [Option.isSome_none, Option.isSome_some, Bool.toNat_true, Bool.toNat_false, List.length_cons,
            List.length_nil] at hnext ⊢
          omega

end Cut

end Page

end Stencil
