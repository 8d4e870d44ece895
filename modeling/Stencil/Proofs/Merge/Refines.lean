import Stencil.Proofs.Merge.Finishes

/-!
More fuel changes no merge that comes to an end without it: of two mergers of nodes let the second run like
the first wherever the first comes to an end. Then the same holds of all that is built of them.
-/

namespace Stencil.Merge

variable {β γ : Type}

structure Refines (m m' : Merge β) : Prop where
  run : ∀ {s}, Finishes m s → m'.run s = m.run s

theorem Refines.refl (m : Merge β) : Refines m m :=
  ⟨fun _ => rfl⟩

theorem Refines.bind {m m' : Merge β} {f f' : β → Merge γ} (h : Refines m m')
    (hf : ∀ x, Refines (f x) (f' x)) : Refines (m >>= f) (m' >>= f') := by
  constructor
  intro s hs
  obtain ⟨hm, hnext⟩ := finishes_bind.mp hs
  have hrun : m' s = m s := h.run hm
  change ExceptT.bind m' f' s = ExceptT.bind m f s
  simp only [ExceptT.bind, ExceptT.mk, Bind.bind, StateT.bind, hrun]
  rcases hmrun : m s with ⟨r, u⟩
  cases r with
  | ok x => exact (hf x).run (hnext x u hmrun)
  | error e => rfl

theorem Refines.inScope {m m' : Merge β} (h : Refines m m') : Refines (inScope m) (inScope m') := by
  constructor
  intro s hs
  have hrun := h.run (finishes_inScope.mp hs)
  change (fun p : Except Failure β × MergeState =>
    (p.1.map fun z => (z, p.2.left, p.2.right), { p.2 with left := s.left, right := s.right }))
    (m'.run { s with left := [], right := [] }) = _
  rw [hrun]
  rfl

section Extract

variable {τ σ : Type} {same : τ → τ → Bool} {fit fit' : τ → σ → Merge τ}

theorem refines_readSources (h : ∀ template source, Refines (fit template source) (fit' template source))
    (mayRestart : Bool) (template : τ) (records : List Fields) (rest : List σ) :
    Refines (readSources same fit mayRestart template records rest)
      (readSources same fit' mayRestart template records rest) := by
  induction rest generalizing template records with
  | nil => exact .refl _
  | cons source rest ih =>
    refine .bind (.refl _) fun s => .bind (.inScope (h template source)) fun x => ?_
    dsimp only
    split
    · exact ih ..
    · refine .bind (.refl _) fun u => ?_
      split
      · exact .refl _
      · exact ih ..

theorem refines_extract (h : ∀ template source, Refines (fit template source) (fit' template source))
    (template : τ) (sources : List σ) :
    Refines (extract same fit template sources) (extract same fit' template sources) := by
  have within (restarts : Nat) (template : τ) : Refines (extractWithin same fit sources restarts template)
      (extractWithin same fit' sources restarts template) := by
    induction restarts generalizing template with
    | zero => exact .bind (refines_readSources h ..) fun x => .refl _
    | succ restarts ih =>
      refine .bind (refines_readSources h ..) fun x => ?_
      obtain ⟨grown, found⟩ := x
      cases found with
      | some records => exact .refl _
      | none => exact ih grown
  exact within ..

end Extract

variable {α : Type} [Grade α] {merge merge' : NodeMerger} {chain : Scope} {around : Around} {side : Side}

def RefinesAll (merge merge' : NodeMerger) : Prop :=
  ∀ chain around a b, Refines (merge chain around a b) (merge' chain around a b)

theorem refines_absorb (h : RefinesAll merge merge') (r : Reference) (template : Node)
    (sources : List Node) :
    Refines (absorb merge around side r template sources) (absorb merge' around side r template sources) :=
  .bind (refines_extract (fun t e => h r around t e) ..) fun _ => .refl _

theorem refines_buildLoop (h : RefinesAll merge merge') (as bs : List Node) :
    Refines (buildLoop merge chain around as bs) (buildLoop merge' chain around as bs) := by
  refine .bind (.refl _) fun key => .bind (.refl _) fun left => .bind (.refl _) fun right => ?_
  exact .bind (refines_extract (fun t e => h _ around t e) ..) fun _ => .refl _

theorem refines_mergeRuns (h : RefinesAll merge merge') (a b : Node) (restA restB : List Node) :
    Refines (mergeRuns? α merge chain around a b restA restB)
      (mergeRuns? α merge' chain around a b restA restB) := by
  unfold mergeRuns?
  split
  · split
    · exact .refl _
    · refine .bind (.refl _) fun _ => ?_
      split
      · exact .refl _
      · refine .bind (.refl _) fun _ => .bind (.refl _) fun _ => ?_
        dsimp only
        split
        · exact .refl _
        · split
          · exact .refl _
          · exact .bind (refines_buildLoop h ..) fun _ => .refl _
  · exact .refl _

theorem refines_mergePair (h : RefinesAll merge merge') (a b : Node) (restA restB : List Node) :
    Refines (mergePair α merge chain around a b restA restB)
      (mergePair α merge' chain around a b restA restB) := by
  unfold mergePair
  split
  · exact .bind (.refl _) fun _ => .bind (refines_absorb h ..) fun _ => .refl _
  · exact .bind (.refl _) fun _ => .bind (refines_absorb h ..) fun _ => .refl _
  · exact .bind (h ..) fun _ => .refl _

theorem refines_mergeFronts (h : RefinesAll merge merge') (a b : Node) (restA restB : List Node) :
    Refines (mergeFronts α merge chain around a b restA restB)
      (mergeFronts α merge' chain around a b restA restB) := by
  unfold mergeFronts
  refine .bind (.refl _) fun first => ?_
  cases first with
  | some taken => exact .refl _
  | none =>
    refine .bind (refines_mergeRuns h ..) fun second => ?_
    cases second with
    | some taken => exact .refl _
    | none =>
      refine .bind (.refl _) fun _ => ?_
      dsimp only
      split
      · exact refines_mergePair h ..
      · refine .bind (.refl _) fun _ => ?_
        split
        · exact refines_mergePair h ..
        · exact .refl _

theorem refines_align (h : RefinesAll merge merge') (fuel : Nat) (as bs : List Node) :
    Refines (align α merge chain around fuel as bs) (align α merge' chain around fuel as bs) := by
  induction fuel generalizing as bs with
  | zero => cases as <;> cases bs <;> exact .refl _
  | succ fuel ih =>
    cases as with
    | nil =>
      cases bs with
      | nil => exact .refl _
      | cons b restB => exact .bind (.refl _) fun x => .bind (ih ..) fun _ => .refl _
    | cons a restA =>
      cases bs with
      | nil => exact .bind (.refl _) fun x => .bind (ih ..) fun _ => .refl _
      | cons b restB => exact .bind (refines_mergeFronts h ..) fun x => .bind (ih ..) fun _ => .refl _

theorem refines_mergeSiblings (h : RefinesAll merge merge') (as bs : List Node) :
    Refines (mergeSiblings α merge chain around as bs) (mergeSiblings α merge' chain around as bs) := by
  refine .bind (.refl _) fun found => ?_
  cases found with
  | some ns => exact .refl _
  | none => exact refines_align h ..

theorem refines_mergeConditional (h : RefinesAll merge merge') (r : Reference) (template other : Node) :
    Refines (mergeConditional merge around side r template other)
      (mergeConditional merge' around side r template other) := by
  refine .bind (.inScope ?_) fun _ => .refl _
  cases side <;> exact h ..

theorem refines_mergeElements (h : RefinesAll merge merge') (s t : Tag) (cs ds : List Node) :
    Refines (mergeElements α merge chain s t cs ds) (mergeElements α merge' chain s t cs ds) := by
  unfold mergeElements
  split
  · exact .refl _
  · split
    · exact .refl _
    · exact .bind (.refl _) fun attrs => .bind (refines_mergeSiblings h ..) fun _ => .refl _

theorem refines_mergeStep (h : RefinesAll merge merge') : RefinesAll (mergeStep α merge) (mergeStep α merge') := by
  intro chain around a b
  unfold mergeStep
  split
  · exact .bind (.inScope (h ..)) fun _ => .refl _
  · exact refines_mergeConditional h ..
  · exact refines_mergeConditional h ..
  · exact .bind (.inScope (h ..)) fun _ => .refl _
  · exact refines_absorb h ..
  · exact refines_absorb h ..
  · exact .refl _
  · exact .refl _
  · exact refines_mergeElements h ..
  all_goals exact .refl _

theorem refines_mergeNode (fuel more : Nat) : RefinesAll (mergeNode α fuel) (mergeNode α (fuel + more)) := by
  induction fuel generalizing more with
  | zero =>
    intro chain around a b
    constructor
    intro s h
    exact absurd rfl h
  | succ fuel ih =>
    rw [Nat.add_right_comm]
    exact refines_mergeStep (ih more)

end Stencil.Merge
