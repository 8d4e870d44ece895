import Stencil.Proofs.LongestRun
import Stencil.Proofs.Node.Fill
import Stencil.Proofs.Node.Kind

namespace Stencil

class Grade.Selective (α : Type) [Grade α] : Prop where
  threshold : ¬ (Grade.loopThreshold : α) ≤ Grade.zero

instance : Grade.Selective Rat :=
  ⟨by decide +kernel⟩

instance : Grade.Selective Float :=
  ⟨by decide +kernel⟩

namespace Score

open Grade

variable {α : Type} [Grade α]

theorem closest_spec {cls c : String} {candidates : List String} {i : Nat} {s : α}
    (h : closest cls candidates = some (i, c, s)) : c ∈ candidates ∧ s = textSimilarity cls c := by
  have hall : ∀ p ∈ (closest cls candidates : Option (Nat × String × α)),
      p.2.1 ∈ candidates ∧ p.2.2 = textSimilarity cls p.2.1 := by
    unfold closest
    refine List.foldlRecOn (motive := fun best : Option (Nat × String × α) => ∀ p ∈ best, p.2.1 ∈ candidates ∧
      p.2.2 = textSimilarity cls p.2.1) _ _ (by simp) fun best hbest e he p hp => ?_
    have hmem := List.fst_mem_of_mem_zipIdx he
    cases best with
    | none =>
      cases hp
      exact ⟨hmem, rfl⟩
    | some b =>
      dsimp only at hp
      split at hp
      · cases hp
        exact ⟨hmem, rfl⟩
      · exact hbest p hp
  exact hall (i, c, s) h

theorem score_of_name_ne {structural : Bool} {s t : Tag} {cs ds : List Node}
    (h : s.name ≠ t.name) : score structural (.element s cs) (.element t ds) = (zero : α) := by
  simp [score, Node.core, h]

theorem score_elements {structural : Bool} {s t : Tag} {cs ds : List Node} (h : s.name = t.name) :
    (score structural (.element s cs) (.element t ds) : α) =
      (one + attributeScore structural s t + childrenScore structural cs ds) / ofNat 3 := by
  simp [score, Node.core, h, childrenScore]

theorem score_block_right {structural : Bool} {k : BlockKind} {r : Reference} {u : Node} :
    (a : Node) → (score structural a (.block k r u) : α) = score structural a u
  | .block _ _ t => by rw [score, score, score_block_right t]
  | .element .. => by rw [score, score, Node.core]
  | .literal .. => by rw [score, score, Node.core]
  | .slot .. => by rw [score, score, Node.core]
  | .content => by rw [score, score, Node.core]
  | .foreign => by rw [score, score, Node.core]

theorem score_core_right {structural : Bool} {a : Node} : (b : Node) →
    (score structural a b.core : α) = score structural a b
  | .block _ _ t => by rw [Node.core, score_block_right, score_core_right t]
  | .element .. => rfl
  | .literal .. => rfl
  | .slot .. => rfl
  | .content => rfl
  | .foreign => rfl

theorem score_core_left {structural : Bool} {b : Node} : (a : Node) →
    (score structural a.core b : α) = score structural a b
  | .block _ _ t => by rw [Node.core, score, score_core_left t]
  | .element .. => rfl
  | .literal .. => rfl
  | .slot .. => rfl
  | .content => rfl
  | .foreign => rfl

theorem score_of_not_element {structural : Bool} {b : Node} : (a : Node) →
    a.core.isElement = false ∨ b.core.isElement = false →
    (score structural a b : α) = leafScore structural a.core b.core
  | .block _ _ t, h => by
    rw [score, Node.core]
    exact score_of_not_element t h
  | .element s cs, h => by
    rw [score]
    cases hb : b.core with
    | element t ds =>
      rw [hb] at h
      simp [Node.core, Node.isElement] at h
    | slot k r => cases k <;> rfl
    | _ => rfl
  | .literal .., _ => by rw [score]; rfl
  | .slot .., _ => by rw [score]; rfl
  | .content, _ => by rw [score]; rfl
  | .foreign, _ => by rw [score]; rfl

theorem score_of_kind_ne {a : Node} (ha : a.Literal) : (n : Node) → n.kind ≠ a.kind →
    (score false n a : α) = zero
  | .block _ _ t, h => by
    rw [score]
    exact score_of_kind_ne ha t h
  | .literal l w, h => by
    cases a with
    | literal k v => cases l <;> cases k <;> first | exact absurd rfl h | rfl
    | element t cs => cases l <;> rfl
    | _ => exact ha.elim
  | .element s cs, h => by
    cases a with
    | literal k v => cases k <;> rfl
    | element t ds => exact score_of_name_ne fun he => h (congrArg Node.Kind.element he)
    | _ => exact ha.elim
  | .slot l r, h => by
    cases a with
    | literal k v =>
      cases l <;> cases k <;> first | exact absurd rfl h | rfl
    | element t cs =>
      cases l with
      | html =>
        have hne : t.name ≠ "svg" := fun he => h (congrArg Node.Kind.element he.symm)
        simp [score, Node.core, leafScore, hne]
      | _ => rfl
    | _ => exact ha.elim
  | .content, _ => by
    cases a with
    | literal k v => cases k <;> rfl
    | element t cs => rfl
    | _ => exact ha.elim
  | .foreign, _ => by
    cases a with
    | literal k v => cases k <;> rfl
    | element t cs => rfl
    | _ => exact ha.elim

theorem isBestMatch_of_zero {a b : Node} {current : α} {restA restB : List Node} (hpos : zero < current)
    (hnot : ¬ current < zero) (hleft : ∀ n ∈ restB, (score false a n : α) = zero)
    (hright : ∀ n ∈ restA, (score false n b : α) = zero) : isBestMatch a b current restA restB = true := by
  have hwaits : hasBetterPartner true a current restB = false := by
    rw [hasBetterPartner, List.any_eq_false]
    intro n hn
    rw [if_pos rfl, hleft n hn]
    simpa using hnot
  have hwaits' : hasBetterPartner false b current restA = false := by
    rw [hasBetterPartner, List.any_eq_false]
    intro n hn
    rw [if_neg Bool.false_ne_true, hright n hn]
    simpa using hnot
  rw [isBestMatch, decide_eq_true hpos, hwaits, hwaits']
  rfl

theorem mem_take_repeats {current n : Node} {ns : List Node} (h : n ∈ ns.take (repeats (α := α) current ns)) :
    n.isBlankText = true ∨ n.isElement = true ∧ reachesThreshold (α := α) current n = true :=
  (longestRun_repeats current ns).within n h

theorem repeats_le_length {current n : Node} {before after : List Node} (hblank : n.isBlankText = false)
    (helement : n.isElement = false) : repeats (α := α) current (before ++ n :: after) ≤ before.length := by
  by_contra hlt
  obtain ⟨k, hk⟩ : ∃ k, repeats (α := α) current (before ++ n :: after) - before.length = k + 1 :=
    ⟨repeats (α := α) current (before ++ n :: after) - before.length - 1, by omega⟩
  have hmem : n ∈ (before ++ n :: after).take (repeats (α := α) current (before ++ n :: after)) := by
    rw [List.take_append, hk, List.take_succ_cons]
    exact List.mem_append_right _ List.mem_cons_self
  rcases mem_take_repeats hmem with h | ⟨h, -⟩
  · rw [hblank] at h
    cases h
  · rw [helement] at h
    cases h

theorem mem_drop_repeats {current n : Node} {ns : List Node} (hblank : n.isBlankText = false)
    (helement : n.isElement = false) (h : n ∈ ns) : n ∈ ns.drop (repeats (α := α) current ns) := by
  obtain ⟨before, after, rfl⟩ := List.append_of_mem h
  rw [List.drop_append_of_le_length (repeats_le_length hblank helement)]
  exact List.mem_append_right _ List.mem_cons_self

variable [Selective α]

theorem name_of_reachesThreshold {s t : Tag} {cs ds : List Node}
    (h : reachesThreshold (α := α) (.element s cs) (.element t ds) = true) : s.name = t.name := by
  by_contra hne
  rw [reachesThreshold, score_of_name_ne hne, decide_eq_true_eq] at h
  exact Selective.threshold h

theorem repeatsFrom_of_name {s : Tag} {cs rest : List Node} {position last : Nat}
    (h : s.name ∉ Node.elementNames rest) :
    repeatsFrom (α := α) (.element s cs) position last rest = last := by
  induction rest generalizing position with
  | nil => rfl
  | cons n rest ih =>
    cases n with
    | element t ds =>
      obtain ⟨hne, -⟩ : s.name ≠ t.name ∧ s.name ∉ Node.elementNames rest := by
        simpa [Node.elementNames, Node.tag?] using h
      have hfar : ¬ reachesThreshold (α := α) (.element s cs) (.element t ds) = true := fun hlike =>
        hne (name_of_reachesThreshold hlike)
      rw [repeatsFrom, if_neg hfar]
    | literal k v =>
      have hrest : s.name ∉ Node.elementNames rest := by simpa [Node.elementNames, Node.tag?] using h
      cases k with
      | text =>
        rw [repeatsFrom]
        split
        · exact ih hrest
        · rfl
      | _ => rfl
    | _ => rfl

theorem repeats_eq_zero {s : Tag} {cs rest : List Node}
    (h : (Node.elementNames (.element s cs :: rest)).Nodup) :
    repeats (α := α) (.element s cs) rest = 0 :=
  repeatsFrom_of_name (List.nodup_cons.mp h).1

end Score

end Stencil
