import Stencil.Proofs.Merge.Failing
import Stencil.Proofs.Merge.Turns

namespace Stencil

namespace Merge

open Node

variable {α : Type} [Grade α] {P : Failure → Prop} {merge : NodeMerger} {chain : Scope} {around : Around} {side : Side}
  {s t : MergeState}

section Extract

variable {τ σ : Type} {same : τ → τ → Bool} {fit : τ → σ → Merge τ} {sources : List σ} {Fit : τ → Prop}

theorem failsIn_readSources {mayRestart : Bool} {template : τ} {records : List Fields} {rest : List σ}
    (hfails : ∀ {template source s}, Fit template → source ∈ sources → FailsIn P (fit template source) s)
    (hfit : ∀ {template source s merged t}, Fit template → source ∈ sources →
      Returns (fit template source) s merged t → Fit merged)
    (hrest : ∀ source ∈ rest, source ∈ sources) (ht : Fit template) :
    FailsIn P (readSources same fit mayRestart template records rest) s := by
  induction rest generalizing template records s with
  | nil => simp [readSources]
  | cons source rest ih =>
    rw [List.forall_mem_cons] at hrest
    simp only [readSources, failsIn_bind, failsIn_get, failsIn_inScope, returns_inScope, true_and]
    rintro _ u -
    refine ⟨hfails ht hrest.1, ?_⟩
    rintro ⟨merged, held, record⟩ v ⟨w, hm, -, -⟩
    have hmerged := hfit ht hrest.1 hm
    simp only [failsIn_ite, failsIn_bind, failsIn_get, failsIn_pure, true_and]
    exact ⟨fun _ => ih hrest.2 ht, fun _ _ _ _ => ⟨fun _ => trivial, fun _ => ih hrest.2 hmerged⟩⟩

variable (Fit) in
theorem failsIn_extract {template : τ}
    (hfails : ∀ {template source s}, Fit template → source ∈ sources → FailsIn P (fit template source) s)
    (hfit : ∀ {template source s merged t}, Fit template → source ∈ sources →
      Returns (fit template source) s merged t → Fit merged) (ht : Fit template) :
    FailsIn P (extract same fit template sources) s := by
  unfold extract
  generalize sources.length + 1 = restarts
  induction restarts generalizing template s with
  | zero =>
    simp only [extractWithin, failsIn_bind, failsIn_pure, implies_true, and_true]
    exact failsIn_readSources hfails hfit (fun _ h => h) ht
  | succ restarts ih =>
    rw [extractWithin, failsIn_bind]
    refine ⟨failsIn_readSources hfails hfit (fun _ h => h) ht, ?_⟩
    rintro ⟨grown, found⟩ u hread
    cases found with
    | some records => simp
    | none =>
      have hgrown := hread.readSources_registry (fun _ => Fit) (fun _ h => h)
        (fun ht hs hm => ⟨hfit ht hs hm, ht⟩) ht
      exact ih hgrown

end Extract

theorem failsIn_absorb {r : Reference} {template : Node} {sources : List Node}
    (h : FailsIn P (extract Node.same (fun t e => merge r around t e) template sources) s) :
    FailsIn P (absorb merge around side r template sources) s := by
  simp [absorb, h]

theorem failsIn_mergeConditional {r : Reference} {template other : Node}
    (h : ∀ s, FailsIn P (merge r around template other) s)
    (h' : ∀ s, FailsIn P (merge r around other template) s) :
    FailsIn P (mergeConditional merge around side r template other) s := by
  cases side <;> simp [mergeConditional, h, h']

section Siblings

variable {a b : Node} {restA restB : List Node}

theorem failsIn_mergeRuns
    (h : a.isElement = true → b.isElement = true → Score.reachesThreshold (α := α) a b = true →
      ∀ u, FailsIn P (buildLoop merge chain around
        (elementsIn (a :: restA.take (Score.repeats (α := α) a restA)))
        (elementsIn (b :: restB.take (Score.repeats (α := α) b restB)))) u) :
    FailsIn P (mergeRuns? α merge chain around a b restA restB) s := by
  unfold mergeRuns?
  split
  · simp only [failsIn_ite, failsIn_bind, failsIn_pure, failsIn_complain, implies_true, true_and, and_true]
    intro _ _ _ _ hlike _ _ _ _ _ _ _ _
    exact h rfl rfl (by simpa using hlike) _
  · simp

theorem failsIn_mergePair
    (hright : ∀ r t u, a = .block .loop r t → b.isElement = true →
      FailsIn P (absorb merge around .right r t (elementsIn (b :: restB.take (Score.repeats (α := α) t restB)))) u)
    (hleft : ∀ r t u, b = .block .loop r t → a.isElement = true →
      FailsIn P (absorb merge around .left r t (elementsIn (a :: restA.take (Score.repeats (α := α) t restA)))) u)
    (hmerge : ∀ u, FailsIn P (merge chain around a b) u) :
    FailsIn P (mergePair α merge chain around a b restA restB) s := by
  unfold mergePair
  split
  · simp [hright _ _ _ rfl rfl]
  · simp [hleft _ _ _ rfl rfl]
  · simp [hmerge]

end Siblings

section Mild

variable [Failure.Mild P]

theorem failsIn_buildLoop {as bs : List Node}
    (h : ∀ key elements u, elements = insertKeys chain.length key (as ++ bs) →
      FailsIn P (extract Node.same (fun t e => merge (reference chain key) around t e)
        (elements.headD .content) elements) u) :
    FailsIn P (buildLoop merge chain around as bs) s := by
  simp only [buildLoop, failsIn_bind, failsIn_newKey, failsIn_moveAll, true_and]
  intro key u _ left v hleft right w hright
  have helements : (left ++ right).map Prod.fst = insertKeys chain.length key (as ++ bs) := by
    rw [List.map_append, (Returns.moveAll hleft).1, (Returns.moveAll hright).1, insertKeys_append]
  refine ⟨h key _ w helements, fun x t _ => ?_⟩
  simp

theorem failsIn_mergeFronts_of {a b : Node} {restA restB : List Node}
    (hknown : .foreign ∈ [a, b] → P (.noMergeRule Node.foreign.kindName))
    (hruns : ∀ u, FailsIn P (mergeRuns? α merge chain around a b restA restB) u)
    (hpair : Grade.isOne (Score.score false a b : α) = true ∨
      Score.isBestMatch a b (Score.score false a b : α) restA restB = true →
      ∀ u, FailsIn P (mergePair α merge chain around a b restA restB) u) :
    FailsIn P (mergeFronts α merge chain around a b restA restB) s := by
  unfold mergeFronts
  rw [failsIn_bind]
  refine ⟨failsIn_mergeBlocks _ _, fun first u _ => ?_⟩
  cases first with
  | some taken => exact failsIn_pure taken
  | none =>
    rw [failsIn_bind]
    refine ⟨hruns u, fun second v _ => ?_⟩
    cases second with
    | some taken => exact failsIn_pure taken
    | none =>
      simp only [failsIn_bind, failsIn_complain, failsIn_ite, failsIn_pure, true_and]
      intro _ w _
      refine ⟨fun hone => hpair (.inl hone) w, fun _ _ x _ => ⟨fun hbest => hpair (.inr hbest) x, ?_⟩⟩
      have hleft : a = .foreign → P (.noMergeRule Node.foreign.kindName) := fun ha => hknown (by simp [ha])
      have hright : b = .foreign → P (.noMergeRule Node.foreign.kindName) := fun hb => hknown (by simp [hb])
      simp [failsIn_unmatched_of _ _ hleft, failsIn_unmatched_of _ _ hright]

theorem failsIn_turn {as bs : List Node} (hknown : .foreign ∈ as ++ bs → P (.noMergeRule Node.foreign.kindName))
    (h : ∀ a restA b restB, as = a :: restA → bs = b :: restB →
      FailsIn P (mergeFronts α merge chain around a b restA restB) s) :
    FailsIn P (turn α merge chain around as bs) s := by
  unfold turn
  split
  · simp [h]
  · next a restA =>
    simp [failsIn_unmatched_of (n := a) _ restA fun ha => hknown (by simp [ha])]
  · next b restB =>
    simp [failsIn_unmatched_of (n := b) _ restB fun hb => hknown (by simp [hb])]
  · simp

theorem failsIn_align_of {fuel : Nat} {as bs : List Node} (hfuel : as.length + bs.length ≤ fuel)
    (hknown : .foreign ∈ as ++ bs → P (.noMergeRule Node.foreign.kindName))
    (h : ∀ a restA b restB u, (a :: restA) <:+ as → (b :: restB) <:+ bs →
      FailsIn P (mergeFronts α merge chain around a b restA restB) u) :
    FailsIn P (align α merge chain around fuel as bs) s := by
  -- each turn takes at least one node from one of the lists
  induction fuel generalizing as bs s with
  | zero =>
    have ha : as = [] := List.length_eq_zero_iff.mp (by omega)
    have hb : bs = [] := List.length_eq_zero_iff.mp (by omega)
    subst ha hb
    exact failsIn_pure []
  | succ fuel ih =>
    rw [align_succ, failsIn_bind]
    refine ⟨failsIn_turn hknown ?_, fun found u hturn => ?_⟩
    · rintro a restA b restB rfl rfl
      exact h _ _ _ _ _ (List.suffix_refl _) (List.suffix_refl _)
    cases found with
    | none => exact failsIn_pure []
    | some taken =>
      have hshorter := (Returns.turn hturn).shorter
      have hlength : (as.drop taken.left).length + (bs.drop taken.right).length ≤ fuel := by omega
      have hdropped : .foreign ∈ as.drop taken.left ++ bs.drop taken.right → P (.noMergeRule Node.foreign.kindName) :=
        fun hmem =>
          hknown (List.mem_append.mpr ((List.mem_append.mp hmem).imp List.mem_of_mem_drop List.mem_of_mem_drop))
      have hrest := ih hlength (s := u) hdropped fun _ _ _ _ _ ha hb =>
        h _ _ _ _ _ (ha.trans (List.drop_suffix ..)) (hb.trans (List.drop_suffix ..))
      simp [hrest]

theorem failsIn_mergeSiblings_of {as bs : List Node}
    (hknown : .foreign ∈ as ++ bs → P (.noMergeRule Node.foreign.kindName))
    (h : ∀ a restA b restB u, (a :: restA) <:+ as → (b :: restB) <:+ bs →
      FailsIn P (mergeFronts α merge chain around a b restA restB) u) :
    FailsIn P (mergeSiblings α merge chain around as bs) s := by
  rw [mergeSiblings, failsIn_bind]
  refine ⟨failsIn_mergeInline as bs, fun found u _ => ?_⟩
  cases found with
  | some ns => exact failsIn_pure ns
  | none => exact failsIn_align_of (Nat.le_refl _) hknown h

end Mild

section Lenient

variable [Failure.Lenient P]

theorem failsIn_mergeFronts {a b : Node} {restA restB : List Node}
    (hruns : ∀ u, FailsIn P (mergeRuns? α merge chain around a b restA restB) u)
    (hpair : Grade.isOne (Score.score false a b : α) = true ∨
      Score.isBestMatch a b (Score.score false a b : α) restA restB = true →
      ∀ u, FailsIn P (mergePair α merge chain around a b restA restB) u) :
    FailsIn P (mergeFronts α merge chain around a b restA restB) s :=
  failsIn_mergeFronts_of (fun _ => holds_noMergeRule _) hruns hpair

theorem failsIn_align {fuel : Nat} {as bs : List Node} (hfuel : as.length + bs.length ≤ fuel)
    (h : ∀ a restA b restB u, (a :: restA) <:+ as → (b :: restB) <:+ bs →
      FailsIn P (mergeFronts α merge chain around a b restA restB) u) :
    FailsIn P (align α merge chain around fuel as bs) s :=
  failsIn_align_of hfuel (fun _ => holds_noMergeRule _) h

theorem failsIn_mergeSiblings {as bs : List Node}
    (h : ∀ a restA b restB u, (a :: restA) <:+ as → (b :: restB) <:+ bs →
      FailsIn P (mergeFronts α merge chain around a b restA restB) u) :
    FailsIn P (mergeSiblings α merge chain around as bs) s :=
  failsIn_mergeSiblings_of (fun _ => holds_noMergeRule _) h

end Lenient

end Merge

end Stencil
