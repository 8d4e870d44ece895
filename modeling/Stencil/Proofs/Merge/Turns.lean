import Stencil.Proofs.Merge.Cases
import Stencil.Proofs.Merge.Step

namespace Stencil

namespace Markdown

variable {ns : List Node}

def Whole (ns rest : List Node) : Prop :=
  (∃ r, ns = [.slot .markdown r]) ∨ LongestRun isBlock (ns ++ rest) ns.length

theorem frontLength_le (ns : List Node) : frontLength ns ≤ ns.length := by
  unfold frontLength
  split
  · exact Nat.succ_le_succ (Nat.zero_le _)
  · exact (longestRun_run ns).le_length

theorem whole_take (ns : List Node) : Whole (ns.take (frontLength ns)) (ns.drop (frontLength ns)) := by
  unfold frontLength
  split
  · next r rest => exact .inl ⟨r, rfl⟩
  · exact .inr (longestRun_run ns).cut

theorem run_front (ns : List Node) : run (ns.take (frontLength ns)) = run ns ∧
    (ns.take (frontLength ns)).take (run ns) = ns.take (run ns) := by
  unfold frontLength
  split
  · exact ⟨rfl, rfl⟩
  · exact ⟨run_take ns, by rw [List.take_take, Nat.min_self]⟩

end Markdown

namespace Merge

variable {α : Type} [Grade α] {merge : NodeMerger} {chain : Scope} {around : Around} {side : Side}
  {s t u : MergeState}

theorem mergeBlocks_front {as bs : List Node} (ha : 0 < Markdown.frontLength as) (hb : 0 < Markdown.frontLength bs) :
    mergeBlocks? chain around (as.take (Markdown.frontLength as)) (bs.take (Markdown.frontLength bs)) =
      mergeBlocks? chain around as bs := by
  obtain ⟨hrunA, htakeA⟩ := Markdown.run_front as
  obtain ⟨hrunB, htakeB⟩ := Markdown.run_front bs
  unfold mergeBlocks?
  dsimp only
  rw [hrunA, hrunB, htakeA, htakeB, List.head?_take, List.head?_take, if_neg (Nat.ne_of_gt ha),
    if_neg (Nat.ne_of_gt hb)]

theorem Returns.unmatched_takes {enclosing : Option Tag} {n m : Node} {rest : List Node} {count : Nat}
    (h : Returns (Merge.unmatched chain side enclosing n rest) s (m, count) t) : 0 < count := by
  cases Returns.unmatched h with
  | markdown hblock _ =>
    rw [Bool.and_eq_true] at hblock
    exact Markdown.run_pos hblock.2
  | _ => exact Nat.one_pos

theorem unmatched_alone {enclosing : Option Tag} {n : Node}
    (hno : (Markdown.allowsBlocks enclosing && Markdown.isBlock n) = false) (rest : List Node) :
    unmatched chain side enclosing n rest = unmatched chain side enclosing n [] := by
  cases n with
  | literal k v => cases k <;> rfl
  | element tag cs =>
    simp only [unmatched, hno, Bool.false_eq_true, if_false]
  | block k r template => cases k <;> rfl
  | _ => rfl

theorem unmatched_run {enclosing : Option Tag} {n : Node} {rest : List Node} {count : Nat}
    (hblock : (Markdown.allowsBlocks enclosing && Markdown.isBlock n) = true)
    (hcount : Markdown.run (n :: rest) = count + 1) :
    unmatched chain side enclosing n (rest.take count) = unmatched chain side enclosing n rest := by
  have htake : n :: rest.take count = (n :: rest).take (Markdown.run (n :: rest)) := by
    rw [hcount, List.take_succ_cons]
  cases n with
  | element tag cs =>
    simp only [unmatched, hblock, if_true]
    rw [htake, Markdown.run_take, List.take_take, Nat.min_self]
  | _ => simp [Markdown.isBlock] at hblock

theorem Returns.unmatched_taken {enclosing : Option Tag} {n m : Node} {ns : List Node} {count : Nat}
    (h : Returns (Merge.unmatched chain side enclosing n ns) s (m, count) t) :
    ∃ xs rest, ns = xs ++ rest ∧ count = xs.length + 1 ∧
      (xs = [] ∨ LongestRun Markdown.isBlock (n :: xs ++ rest) (xs.length + 1)) ∧
      Returns (Merge.unmatched chain side enclosing n xs) s (m, xs.length + 1) t := by
  by_cases hblock : (Markdown.allowsBlocks enclosing && Markdown.isBlock n) = true
  · have hcount : count = Markdown.run (n :: ns) := by
      cases Returns.unmatched h with
      | markdown => rfl
      | wrapped hno _ =>
        rw [hno] at hblock
        cases hblock
      | _ => simp [Markdown.isBlock] at hblock
    have hpos := Returns.unmatched_takes h
    obtain ⟨run, rfl⟩ : ∃ run, count = run + 1 := ⟨count - 1, by omega⟩
    have hrun := Markdown.longestRun_run (n :: ns)
    rw [← hcount] at hrun
    have hlength : (ns.take run).length = run := List.length_take_of_le (Nat.le_of_succ_le_succ hrun.le_length)
    rw [← unmatched_run hblock hcount.symm] at h
    refine ⟨ns.take run, ns.drop run, (List.take_append_drop ..).symm, by rw [hlength], .inr ?_, by rwa [hlength]⟩
    rwa [List.cons_append, List.take_append_drop, hlength]
  · have hcount : count = 1 := by
      cases Returns.unmatched h with
      | markdown hyes _ => exact absurd hyes hblock
      | _ => rfl
    subst hcount
    rw [unmatched_alone (by simpa using hblock)] at h
    exact ⟨[], ns, rfl, rfl, .inl rfl, h⟩

variable (α merge chain around)

/-- What one turn makes of the nodes that it takes from the fronts of two lists, `xs` and `ys`. What follows them there,
`restA` and `restB`, only decides that a run goes no further. -/
inductive Makes (s : MergeState) : (xs restA ys restB : List Node) → Node → MergeState → Prop
  | blocks {xs ys restA restB : List Node} {n : Node} {t : MergeState} :
    Markdown.Whole xs restA → Markdown.Whole ys restB →
    Returns (mergeBlocks? chain around xs ys) s (some ⟨n, xs.length, ys.length⟩) t → Makes s xs restA ys restB n t
  | loop {a b n : Node} {xs ys restA restB : List Node} {u t : MergeState} : Quiet s u →
    LongestRun (Score.reachesThreshold (α := α) a) (xs ++ restA) xs.length →
    LongestRun (Score.reachesThreshold (α := α) b) (ys ++ restB) ys.length →
    Returns (buildLoop merge chain around (elementsIn (a :: xs)) (elementsIn (b :: ys))) u n t →
    Makes s (a :: xs) restA (b :: ys) restB n t
  | absorbRight {r : Reference} {template b n : Node} {ys restA restB : List Node} {u t : MergeState} : Quiet s u →
    LongestRun (Score.reachesThreshold (α := α) template) (ys ++ restB) ys.length →
    Returns (absorb merge around .right r template (elementsIn (b :: ys))) u n t →
    Makes s [.block .loop r template] restA (b :: ys) restB n t
  | absorbLeft {r : Reference} {a template n : Node} {xs restA restB : List Node} {u t : MergeState} : Quiet s u →
    LongestRun (Score.reachesThreshold (α := α) template) (xs ++ restA) xs.length →
    Returns (absorb merge around .left r template (elementsIn (a :: xs))) u n t →
    Makes s (a :: xs) restA [.block .loop r template] restB n t
  | pair {a b n : Node} {restA restB : List Node} {u t : MergeState} : Quiet s u →
    Returns (merge chain around a b) u n t → Makes s [a] restA [b] restB n t
  | left {a n : Node} {xs restA restB : List Node} {u t : MergeState} : Quiet s u →
    (xs = [] ∨ LongestRun Markdown.isBlock (a :: xs ++ restA) (xs.length + 1)) →
    Returns (unmatched chain .left around.left a xs) u (n, xs.length + 1) t →
    Makes s (a :: xs) restA [] restB n t
  | right {b n : Node} {ys restA restB : List Node} {u t : MergeState} : Quiet s u →
    (ys = [] ∨ LongestRun Markdown.isBlock (b :: ys ++ restB) (ys.length + 1)) →
    Returns (unmatched chain .right around.right b ys) u (n, ys.length + 1) t →
    Makes s [] restA (b :: ys) restB n t

def turn (as bs : List Node) : Merge (Option Taken) :=
  match as, bs with
  | a :: restA, b :: restB => do
    let taken ← mergeFronts α merge chain around a b restA restB
    return some taken
  | a :: restA, [] => do
    let (n, count) ← unmatched chain .left around.left a restA
    return some ⟨n, count, 0⟩
  | [], b :: restB => do
    let (n, count) ← unmatched chain .right around.right b restB
    return some ⟨n, 0, count⟩
  | [], [] => return none

theorem align_succ (fuel : Nat) (as bs : List Node) :
    align α merge chain around (fuel + 1) as bs = (do
      match ← turn α merge chain around as bs with
      | none => return []
      | some taken => do
        let others ← align α merge chain around fuel (as.drop taken.left) (bs.drop taken.right)
        return taken.node :: others) := by
  cases as <;> cases bs <;> simp [align, turn]

structure Takes (as bs : List Node) (s : MergeState) (taken : Taken) (t : MergeState) : Prop where
  advances : 0 < taken.left + taken.right
  left : taken.left ≤ as.length
  right : taken.right ≤ bs.length
  makes : Makes α merge chain around s (as.take taken.left) (as.drop taken.left) (bs.take taken.right)
    (bs.drop taken.right) taken.node t

variable {α merge chain around}

section Takes

variable {a b n : Node} {as bs restA restB : List Node} {taken : Taken} {count : Nat}

theorem Takes.of_blocks (h : Returns (mergeBlocks? chain around as bs) s (some taken) t) :
    Takes α merge chain around as bs s taken t := by
  obtain ⟨hleft, hright, hposA, hposB⟩ := Returns.mergeBlocks_frontLength h
  have hlengthA := Markdown.frontLength_le as
  have hlengthB := Markdown.frontLength_le bs
  obtain ⟨n, left, right⟩ := taken
  dsimp only at hleft hright hposA hposB
  subst hleft hright
  rw [← mergeBlocks_front hposA hposB] at h
  refine ⟨Nat.add_pos_left hposA _, hlengthA, hlengthB, .blocks (Markdown.whole_take as) (Markdown.whole_take bs) ?_⟩
  rwa [List.length_take_of_le hlengthA, List.length_take_of_le hlengthB]

theorem Takes.of_runs (hu : Quiet s u)
    (h : Returns (mergeRuns? α merge chain around a b restA restB) u (some taken) t) :
    Takes α merge chain around (a :: restA) (b :: restB) s taken t := by
  obtain ⟨-, -, -, -, n, v, rfl, hv, hn⟩ := Returns.mergeRuns_buildLoop h
  have hrunA := Score.longestRun_repeats (α := α) a restA
  have hrunB := Score.longestRun_repeats (α := α) b restB
  rw [Nat.add_comm 1, Nat.add_comm 1]
  exact ⟨Nat.add_pos_left (Nat.succ_pos _) _, Nat.succ_le_succ hrunA.le_length, Nat.succ_le_succ hrunB.le_length,
    .loop (hu.trans hv) hrunA.cut hrunB.cut hn⟩

theorem Takes.of_pair (hu : Quiet s u)
    (h : Returns (mergePair α merge chain around a b restA restB) u taken t) :
    Takes α merge chain around (a :: restA) (b :: restB) s taken t := by
  unfold mergePair at h
  split at h
  · next r template _ _ =>
    simp only [returns_bind, returns_pure] at h
    obtain ⟨_, v, hv, n, _, hn, rfl, rfl⟩ := h
    have hrun := Score.longestRun_repeats (α := α) template restB
    rw [Nat.add_comm 1]
    exact ⟨Nat.add_pos_left Nat.one_pos _, Nat.succ_le_succ (Nat.zero_le _), Nat.succ_le_succ hrun.le_length,
      .absorbRight (hu.trans (Returns.complain hv)) hrun.cut hn⟩
  · next r template =>
    simp only [returns_bind, returns_pure] at h
    obtain ⟨_, v, hv, n, _, hn, rfl, rfl⟩ := h
    have hrun := Score.longestRun_repeats (α := α) template restA
    rw [Nat.add_comm 1]
    exact ⟨Nat.add_pos_right _ Nat.one_pos, Nat.succ_le_succ hrun.le_length, Nat.succ_le_succ (Nat.zero_le _),
      .absorbLeft (hu.trans (Returns.complain hv)) hrun.cut hn⟩
  · simp only [returns_bind, returns_pure] at h
    obtain ⟨n, _, hn, rfl, rfl⟩ := h
    exact ⟨Nat.two_pos, Nat.succ_le_succ (Nat.zero_le _), Nat.succ_le_succ (Nat.zero_le _), .pair hu hn⟩

theorem Takes.of_unmatched_left (hu : Quiet s u)
    (h : Returns (unmatched chain .left around.left a restA) u (n, count) t) :
    Takes α merge chain around (a :: restA) bs s ⟨n, count, 0⟩ t := by
  obtain ⟨xs, rest, rfl, rfl, hwhole, h⟩ := Returns.unmatched_taken h
  refine ⟨Nat.succ_pos _, by simp, Nat.zero_le _, ?_⟩
  dsimp only
  rw [List.take_succ_cons, List.drop_succ_cons, List.take_left, List.drop_left]
  exact .left hu hwhole h

theorem Takes.of_unmatched_right (hu : Quiet s u)
    (h : Returns (unmatched chain .right around.right b restB) u (n, count) t) :
    Takes α merge chain around as (b :: restB) s ⟨n, 0, count⟩ t := by
  obtain ⟨ys, rest, rfl, rfl, hwhole, h⟩ := Returns.unmatched_taken h
  refine ⟨Nat.add_pos_right _ (Nat.succ_pos _), Nat.zero_le _, by simp, ?_⟩
  dsimp only
  rw [List.take_succ_cons, List.drop_succ_cons, List.take_left, List.drop_left]
  exact .right hu hwhole h

theorem Front.takes (h : Front α merge chain around a b restA restB s taken t) :
    Takes α merge chain around (a :: restA) (b :: restB) s taken t := by
  cases h with
  | blocks h => exact .of_blocks h
  | runs hu h => exact .of_runs hu h
  | pair hu _ h => exact .of_pair hu h
  | left hu _ _ _ h => exact .of_unmatched_left hu h
  | right hu _ _ _ h => exact .of_unmatched_right hu h

theorem Returns.turn (h : Returns (Merge.turn α merge chain around as bs) s (some taken) t) :
    Takes α merge chain around as bs s taken t := by
  unfold Merge.turn at h
  split at h
  · simp only [returns_bind, returns_pure] at h
    obtain ⟨_, _, hf, htaken, rfl⟩ := h
    cases htaken
    exact (Returns.front hf).takes
  · simp only [returns_bind, returns_pure] at h
    obtain ⟨⟨n, count⟩, _, hn, htaken, rfl⟩ := h
    cases htaken
    exact .of_unmatched_left (.refl _) hn
  · simp only [returns_bind, returns_pure] at h
    obtain ⟨⟨n, count⟩, _, hn, htaken, rfl⟩ := h
    cases htaken
    exact .of_unmatched_right (.refl _) hn
  · simp at h

theorem Returns.turn_none (h : Returns (Merge.turn α merge chain around as bs) s none t) :
    as = [] ∧ bs = [] ∧ t = s := by
  unfold Merge.turn at h
  split at h
  · simp at h
  · simp at h
  · simp at h
  · exact ⟨rfl, rfl, (returns_pure.mp h).2⟩

theorem Takes.shorter (h : Takes α merge chain around as bs s taken t) :
    (as.drop taken.left).length + (bs.drop taken.right).length < as.length + bs.length := by
  have hadvances := h.advances
  have hleft := h.left
  have hright := h.right
  rw [List.length_drop, List.length_drop]
  omega

theorem Takes.split (h : Takes α merge chain around as bs s taken t) :
    ∃ n xs as' ys bs', as = xs ++ as' ∧ bs = ys ++ bs' ∧ taken = ⟨n, xs.length, ys.length⟩ := by
  refine ⟨taken.node, as.take taken.left, as.drop taken.left, bs.take taken.right, bs.drop taken.right,
    (List.take_append_drop ..).symm, (List.take_append_drop ..).symm, ?_⟩
  rw [List.length_take_of_le h.left, List.length_take_of_le h.right]

end Takes

end Merge

end Stencil
