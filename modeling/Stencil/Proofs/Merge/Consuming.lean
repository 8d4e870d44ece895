import Stencil.Proofs.Merge.Turns

/-!
What a merge of two lists of siblings consumes. Its turns take every node of both lists once and in order, up to the end
of both or to the turn that fails, and a run that one of them takes is the longest one.
-/

namespace Stencil

namespace Merge

variable {α : Type} [Grade α] {merge : NodeMerger} {chain : Scope} {around : Around} {s t u : MergeState}

structure Part where
  left : List Node
  right : List Node
  node : Node

variable (α merge chain around)

inductive Turns : List Node → List Node → MergeState → List Part → List Node → List Node → MergeState → Prop
  | none {as bs : List Node} {s : MergeState} : Turns as bs s [] as bs s
  | next {xs ys as bs restA restB : List Node} {n : Node} {parts : List Part} {s u t : MergeState} :
    Returns (turn α merge chain around (xs ++ as) (ys ++ bs)) s (some ⟨n, xs.length, ys.length⟩) u →
    Turns as bs u parts restA restB t → Turns (xs ++ as) (ys ++ bs) s (⟨xs, ys, n⟩ :: parts) restA restB t

inductive Consumed (as bs : List Node) (s : MergeState) : Except Failure (List Node) × MergeState → Prop
  | inline {n : Node} {t : MergeState} : Returns (mergeInline? chain around as bs) s (some [n]) t →
    Consumed as bs s (.ok [n], t)
  | inlineFailed {f : Failure} {t : MergeState} : (mergeInline? chain around as bs).run s = (.error f, t) →
    Consumed as bs s (.error f, t)
  | turns {parts : List Part} {t : MergeState} : Returns (mergeInline? chain around as bs) s none s →
    Turns α merge chain around as bs s parts [] [] t → parts.flatMap Part.left = as → parts.flatMap Part.right = bs →
    Consumed as bs s (.ok (parts.map Part.node), t)
  | turnFailed {parts : List Part} {restA restB : List Node} {f : Failure} {u t : MergeState} :
    Returns (mergeInline? chain around as bs) s none s → Turns α merge chain around as bs s parts restA restB u →
    parts.flatMap Part.left ++ restA = as → parts.flatMap Part.right ++ restB = bs →
    (turn α merge chain around restA restB).run u = (.error f, t) → Consumed as bs s (.error f, t)

variable {α merge chain around}

theorem Turns.left_eq {as bs restA restB : List Node} {parts : List Part}
    (h : Turns α merge chain around as bs s parts restA restB t) : parts.flatMap Part.left ++ restA = as := by
  induction h with
  | none => rfl
  | next _ _ ih => rw [List.flatMap_cons, List.append_assoc, ih]

theorem Turns.right_eq {as bs restA restB : List Node} {parts : List Part}
    (h : Turns α merge chain around as bs s parts restA restB t) : parts.flatMap Part.right ++ restB = bs := by
  induction h with
  | none => rfl
  | next _ _ ih => rw [List.flatMap_cons, List.append_assoc, ih]

variable (α merge chain around) in
theorem exists_turns {fuel : Nat} {as bs : List Node} (hfuel : as.length + bs.length ≤ fuel) (s : MergeState) :
    ∃ parts restA restB u, Turns α merge chain around as bs s parts restA restB u ∧
      (restA = [] ∧ restB = [] ∧ (align α merge chain around fuel as bs).run s = (.ok (parts.map Part.node), u) ∨
        ∃ f t, (turn α merge chain around restA restB).run u = (.error f, t) ∧
          (align α merge chain around fuel as bs).run s = (.error f, t)) := by
  induction fuel generalizing as bs s with
  | zero =>
    obtain rfl : as = [] := List.length_eq_zero_iff.mp (by omega)
    obtain rfl : bs = [] := List.length_eq_zero_iff.mp (by omega)
    exact ⟨[], [], [], s, .none, .inl ⟨rfl, rfl, rfl⟩⟩
  | succ fuel ih =>
    rw [align_succ]
    rcases hturn : (turn α merge chain around as bs).run s with ⟨f | found, u⟩
    · exact ⟨[], as, bs, s, .none, .inr ⟨f, u, hturn, run_bind_of_error hturn⟩⟩
    rw [run_bind_of_returns hturn]
    cases found with
    | none =>
      obtain ⟨rfl, rfl, rfl⟩ := Returns.turn_none hturn
      exact ⟨[], [], [], u, .none, .inl ⟨rfl, rfl, rfl⟩⟩
    | some taken =>
      have htakes := Returns.turn hturn
      have hshorter := htakes.shorter
      obtain ⟨n, xs, as', ys, bs', rfl, rfl, rfl⟩ := htakes.split
      dsimp only at hshorter ⊢
      rw [List.drop_left, List.drop_left] at hshorter ⊢
      have hrest : as'.length + bs'.length ≤ fuel := by omega
      obtain ⟨parts, restA, restB, v, hturns, hend⟩ := ih hrest u
      refine ⟨⟨xs, ys, n⟩ :: parts, restA, restB, v, .next hturn hturns, ?_⟩
      rcases hend with ⟨hrestA, hrestB, hrun⟩ | ⟨f, t, hfail, hrun⟩
      · refine .inl ⟨hrestA, hrestB, ?_⟩
        rw [run_bind_of_returns hrun]
        rfl
      · exact .inr ⟨f, t, hfail, run_bind_of_error hrun⟩

theorem Inlined.single {as bs ns : List Node} (h : Inlined chain as bs s ns t) : ∃ n, ns = [n] := by
  cases h <;> exact ⟨_, rfl⟩

theorem consumed_mergeSiblings (as bs : List Node) (s : MergeState) :
    Consumed α merge chain around as bs s ((mergeSiblings α merge chain around as bs).run s) := by
  unfold mergeSiblings
  rcases hinline : (mergeInline? chain around as bs).run s with ⟨f | found, u⟩
  · rw [run_bind_of_error hinline]
    exact .inlineFailed hinline
  rw [run_bind_of_returns hinline]
  cases found with
  | some ns =>
    obtain ⟨n, rfl⟩ := (Returns.mergeInline hinline).single
    exact .inline hinline
  | none =>
    obtain rfl := Returns.mergeInline_none hinline
    obtain ⟨parts, restA, restB, v, hturns, hend⟩ :=
      exists_turns α merge chain around (Nat.le_refl (as.length + bs.length)) u
    have hleft := hturns.left_eq
    have hright := hturns.right_eq
    rcases hend with ⟨rfl, rfl, hrun⟩ | ⟨f, t, hfail, hrun⟩
    · rw [List.append_nil] at hleft hright
      dsimp only
      rw [hrun]
      exact .turns hinline hturns hleft hright
    · dsimp only
      rw [hrun]
      exact .turnFailed hinline hturns hleft hright hfail

/-- There is just one longest run at the front of a list, and both ways to count one find it. Hence every turn of a walk
takes something from the fronts of its two lists and no more than there is, and a merge consumes both lists as the
parts that its turns take one after the other, without a gap and without an overlap. -/
theorem siblings_consumed_in_runs (α : Type) [Grade α] :
    (∀ (current : Node) (ns : List Node) (count : Nat),
      LongestRun (Score.reachesThreshold (α := α) current) ns count ↔ count = Score.repeats (α := α) current ns) ∧
    (∀ (ns : List Node) (count : Nat), LongestRun Markdown.isBlock ns count ↔ count = Markdown.run ns) ∧
    ∀ (merge : NodeMerger) (chain : Scope) (around : Around) (as bs : List Node) (s : MergeState),
      (∀ taken t, Returns (turn α merge chain around as bs) s (some taken) t →
        Takes α merge chain around as bs s taken t) ∧
      Consumed α merge chain around as bs s ((mergeSiblings α merge chain around as bs).run s) := by
  refine ⟨fun current ns count => ?_, fun ns count => ?_, fun merge chain around as bs s => ⟨fun taken t hturn => ?_, ?_⟩⟩
  · exact (Score.longestRun_repeats current ns).iff
  · exact (Markdown.longestRun_run ns).iff
  · exact Returns.turn hturn
  · exact consumed_mergeSiblings as bs s

theorem siblings_consumed_in_runs_links :
    ∃ home news about after : Node,
      LongestRun (Score.reachesThreshold (α := Rat) home)
        [.text "\n", news, .text "\n", about, .text "\n", after] 4 ∧
      LongestRun Markdown.isBlock [after, .text "\n", home] 1 ∧
      ∃ taken t, Returns (turn Rat (mergeNode Rat 9) [] {} [home, .text "\n", news, .text "\n"] [about, after]) {}
          (some taken) t ∧
        (taken.left, taken.right) = (3, 1) ∧
        Takes Rat (mergeNode Rat 9) [] {} [home, .text "\n", news, .text "\n"] [about, after] {} taken t := by
  obtain ⟨hrepeats, hblocks, hwalk⟩ := siblings_consumed_in_runs Rat
  let link (target v : String) : Node := .element ⟨"a", [.fixed "href" target]⟩ [.text v]
  let home := link "/" "Home"
  let news := link "/news" "News"
  let about := link "/about" "About"
  let after : Node := .element ⟨"p", []⟩ [.text "after"]
  obtain ⟨found, t, hturn, hfound⟩ := exists_returns (f := Option.map fun n : Taken => (n.left, n.right))
    (y := some (3, 1)) (m := turn Rat (mergeNode Rat 9) [] {} [home, .text "\n", news, .text "\n"] [about, after])
    (s := {}) (by decide +kernel)
  obtain ⟨taken, rfl, hcounts⟩ := Option.map_eq_some_iff.mp hfound
  exact ⟨home, news, about, after, (hrepeats _ _ _).mpr (by decide +kernel), (hblocks _ _).mpr (by decide +kernel),
    taken, t, hturn, hcounts, (hwalk _ _ _ _ _ _).1 taken t hturn⟩

end Merge

end Stencil
