import Stencil.Merge.Siblings
import Stencil.Proofs.Merge.Returns

namespace Stencil.Merge

open Node Grade

variable {chain : Scope} {around : Around} {s t : MergeState}

theorem returns_freshKey {enclosing source : Option Tag} {suffix key : String} {kind : Variation}
    {attr : Option String} (hbase : baseName enclosing "" suffix = key) (hleft : key ∉ Assoc.keys s.left)
    (hright : key ∉ Assoc.keys s.right) (hknown : key ∉ s.registry.keys chain) :
    Returns (newKey chain enclosing suffix kind source attr) s key
      { s with registry := s.registry.record chain key kind source attr } := by
  have hreserved : key ∉ s.registry.keys chain ++ Assoc.keys s.right := by
    rw [List.mem_append, not_or]
    exact ⟨hknown, hright⟩
  have hfree : Record.uniqueName ⟨chain, s.left⟩ enclosing "" suffix (s.registry.keys chain ++ Assoc.keys s.right) =
      .ok key := by
    rw [← hbase] at hreserved hleft ⊢
    exact Record.uniqueName_of_free hleft hreserved
  unfold newKey
  rw [returns_bind]
  refine ⟨s, s, returns_get.mpr ⟨rfl, rfl⟩, ?_⟩
  rw [returns_bind]
  refine ⟨key, s, returns_ofExcept.mpr ⟨hfree, rfl⟩, ?_⟩
  rw [returns_bind]
  exact ⟨(), _, returns_modify.mpr rfl, returns_pure.mpr ⟨rfl, rfl⟩⟩

theorem returns_mergeBlocks_none {as bs : List Node} (hblocks : Markdown.allowsBlocks around.left = false) :
    Returns (mergeBlocks? chain around as bs) s none s := by
  rw [mergeBlocks?, hblocks]
  exact returns_pure.mpr ⟨rfl, rfl⟩

variable {α : Type} [Grade α] {merge : NodeMerger}

theorem returns_complain_nil : Returns (complain []) s () s := by
  rw [complain, returns_modify]
  rfl

theorem returns_complaints {a b : Node} (ha : a.hasForeign = false) (hb : b.hasForeign = false) :
    Returns (complain (Score.complaints a b)) s () s := by
  rw [Score.complaints, ha, hb]
  exact returns_complain_nil

theorem returns_repeatComplaints {a : Node} {rest : List Node} (ha : a.hasForeign = false)
    (hrest : anyForeign rest = false) : Returns (complain (Score.repeatComplaints α a rest)) s () s := by
  rw [Score.repeatComplaints, ha, hrest]
  exact returns_complain_nil

theorem partnerComplaints_of_known {first : Bool} {node : Node} {current : α} {others : List Node}
    (hnode : node.hasForeign = false) (hothers : anyForeign others = false) :
    Score.partnerComplaints α first node current others = [] := by
  rw [Score.partnerComplaints, hnode, hothers]
  rfl

theorem bestMatchComplaints_of_known {a b : Node} {current : α} {restA restB : List Node}
    (ha : anyForeign (a :: restA) = false) (hb : anyForeign (b :: restB) = false) :
    Score.bestMatchComplaints α a b current restA restB = [] := by
  rw [anyForeign, Bool.or_eq_false_iff] at ha hb
  rw [Score.bestMatchComplaints, partnerComplaints_of_known ha.1 hb.2, partnerComplaints_of_known hb.1 ha.2]
  simp

theorem returns_mergeFronts_pair {a b : Node} {restA restB : List Node} {taken : Taken}
    (hblocks : Returns (mergeBlocks? chain around (a :: restA) (b :: restB)) s none s)
    (hruns : Returns (mergeRuns? α merge chain around a b restA restB) s none s)
    (ha : anyForeign (a :: restA) = false) (hb : anyForeign (b :: restB) = false)
    (hpartners : isOne (Score.score false a b : α) = true ∨
      Score.isBestMatch a b (Score.score false a b : α) restA restB = true)
    (hpair : Returns (mergePair α merge chain around a b restA restB) s taken t) :
    Returns (mergeFronts α merge chain around a b restA restB) s taken t := by
  have hknownA : a.hasForeign = false := by
    rw [anyForeign, Bool.or_eq_false_iff] at ha
    exact ha.1
  have hknownB : b.hasForeign = false := by
    rw [anyForeign, Bool.or_eq_false_iff] at hb
    exact hb.1
  unfold mergeFronts
  rw [returns_bind]
  refine ⟨none, s, hblocks, ?_⟩
  rw [returns_bind]
  refine ⟨none, s, hruns, ?_⟩
  rw [returns_bind]
  refine ⟨(), s, returns_complaints hknownA hknownB, ?_⟩
  dsimp only
  split
  · exact hpair
  · next hone =>
    rcases hpartners with hyes | hbest
    · exact absurd hyes hone
    · rw [returns_bind, bestMatchComplaints_of_known ha hb]
      refine ⟨(), s, returns_complain_nil, ?_⟩
      rw [if_pos hbest]
      exact hpair

theorem returns_mergePair {a b n : Node} {restA restB : List Node}
    (ha : ∀ r u, a = .block .loop r u → b.isElement = false) (hb : ∀ r u, b = .block .loop r u → a.isElement = false)
    (h : Returns (merge chain around a b) s n t) :
    Returns (mergePair α merge chain around a b restA restB) s ⟨n, 1, 1⟩ t := by
  unfold mergePair
  split
  · next r u _ _ => cases ha r u rfl
  · next r u => cases hb r u rfl
  · rw [returns_bind]
    exact ⟨n, t, h, returns_pure.mpr ⟨rfl, rfl⟩⟩

theorem returns_mergeRuns_alone {a b : Node} (ha : a.hasForeign = false) (hb : b.hasForeign = false) :
    Returns (mergeRuns? α merge chain around a b [] []) s none s := by
  unfold mergeRuns?
  split
  · split
    · exact returns_pure.mpr ⟨rfl, rfl⟩
    · rw [returns_bind]
      refine ⟨(), s, returns_complaints ha hb, ?_⟩
      split
      · exact returns_pure.mpr ⟨rfl, rfl⟩
      · simp only [returns_bind]
        exact ⟨(), s, returns_repeatComplaints ha rfl, (), s, returns_repeatComplaints hb rfl,
          returns_pure.mpr ⟨rfl, rfl⟩⟩
  · exact returns_pure.mpr ⟨rfl, rfl⟩

theorem returns_mergeRuns_loop {a b n : Node} {restA restB : List Node} {as bs : List Node}
    (hisA : ∃ tag ∈ a.tag?, loopExcluded.contains tag.name = false)
    (hisB : ∃ tag ∈ b.tag?, loopExcluded.contains tag.name = false)
    (ha : anyForeign (a :: restA) = false) (hb : anyForeign (b :: restB) = false)
    (hreaches : Score.reachesThreshold (α := α) a b = true)
    (hruns : Score.repeats (α := α) a restA ≠ 0 ∨ Score.repeats (α := α) b restB ≠ 0)
    (has : elementsIn (a :: restA.take (Score.repeats (α := α) a restA)) = as)
    (hbs : elementsIn (b :: restB.take (Score.repeats (α := α) b restB)) = bs) (hdiffer : sameList as bs = false)
    (hloop : Returns (buildLoop merge chain around as bs) s n t) :
    Returns (mergeRuns? α merge chain around a b restA restB) s
      (some ⟨n, 1 + Score.repeats (α := α) a restA, 1 + Score.repeats (α := α) b restB⟩) t := by
  rw [anyForeign, Bool.or_eq_false_iff] at ha hb
  unfold mergeRuns?
  split
  · next tag cs tag' ds =>
    obtain ⟨_, ⟨⟩, hexcludedA⟩ := hisA
    obtain ⟨_, ⟨⟩, hexcludedB⟩ := hisB
    split
    · next hexcluded =>
      rw [hexcludedA, hexcludedB] at hexcluded
      cases hexcluded
    · rw [returns_bind]
      refine ⟨(), s, returns_complaints ha.1 hb.1, ?_⟩
      split
      · next hfar => simp [hreaches] at hfar
      · simp only [returns_bind]
        refine ⟨(), s, returns_repeatComplaints ha.1 ha.2, (), s, returns_repeatComplaints hb.1 hb.2, ?_⟩
        split
        · next hnone =>
          rw [Bool.and_eq_true, decide_eq_true_eq, decide_eq_true_eq] at hnone
          rcases hruns with hrun | hrun
          · exact absurd hnone.1 hrun
          · exact absurd hnone.2 hrun
        · rw [has, hbs, hdiffer]
          simp only [Bool.false_eq_true, if_false, returns_bind]
          exact ⟨n, t, hloop, returns_pure.mpr ⟨rfl, rfl⟩⟩
  · next hno =>
    obtain ⟨_, htag, -⟩ := hisA
    obtain ⟨_, htag', -⟩ := hisB
    cases a <;> cases htag
    cases b <;> cases htag'
    exact absurd rfl (hno _ _ _ _ rfl)

theorem returns_mergeFronts_runs {a b : Node} {restA restB : List Node} {taken : Taken}
    (hblocks : Markdown.allowsBlocks around.left = false)
    (hruns : Returns (mergeRuns? α merge chain around a b restA restB) s (some taken) t) :
    Returns (mergeFronts α merge chain around a b restA restB) s taken t := by
  unfold mergeFronts
  rw [returns_bind]
  refine ⟨none, s, returns_mergeBlocks_none hblocks, ?_⟩
  rw [returns_bind]
  exact ⟨some taken, t, hruns, returns_pure.mpr ⟨rfl, rfl⟩⟩

theorem returns_mergeSiblings_front {a b n : Node} {restA restB : List Node}
    (hinline : Returns (mergeInline? chain around (a :: restA) (b :: restB)) s none s)
    (h : Returns (mergeFronts α merge chain around a b restA restB) s ⟨n, 1 + restA.length, 1 + restB.length⟩ t) :
    Returns (mergeSiblings α merge chain around (a :: restA) (b :: restB)) s [n] t := by
  have hdone : Returns (align α merge chain around (restA.length + (b :: restB).length)
      ((a :: restA).drop (1 + restA.length)) ((b :: restB).drop (1 + restB.length))) t [] t := by
    rw [List.drop_eq_nil_of_le (by simp [Nat.add_comm]), List.drop_eq_nil_of_le (by simp [Nat.add_comm])]
    cases restA.length + (b :: restB).length <;> exact returns_pure.mpr ⟨rfl, rfl⟩
  have hsteps : (a :: restA).length + (b :: restB).length = restA.length + (b :: restB).length + 1 := by
    rw [List.length_cons]
    omega
  rw [mergeSiblings, returns_bind]
  refine ⟨none, s, hinline, ?_⟩
  rw [hsteps]
  change Returns (align α merge chain around (_ + 1) (a :: restA) (b :: restB)) s [n] t
  rw [align, returns_bind]
  refine ⟨_, t, h, ?_⟩
  rw [returns_bind]
  exact ⟨[], t, hdone, returns_pure.mpr ⟨rfl, rfl⟩⟩

theorem returns_mergeFronts_alone {a b n : Node} (hblocks : Markdown.allowsBlocks around.left = false)
    (ha : ∀ r u, a ≠ .block .loop r u) (hb : ∀ r u, b ≠ .block .loop r u) (hpos : zero < (Score.score false a b : α))
    (hknown : a.hasForeign = false) (hforeign : b.hasForeign = false) (h : Returns (merge chain around a b) s n t) :
    Returns (mergeFronts α merge chain around a b [] []) s ⟨n, 1, 1⟩ t := by
  have hbest : Score.isBestMatch a b (Score.score false a b : α) [] [] = true := by
    simp [Score.isBestMatch, Score.hasBetterPartner, hpos]
  apply returns_mergeFronts_pair (returns_mergeBlocks_none hblocks) (returns_mergeRuns_alone hknown hforeign)
  · rw [anyForeign, hknown]
    rfl
  · rw [anyForeign, hforeign]
    rfl
  · exact .inr hbest
  · exact returns_mergePair (fun r u he => absurd he (ha r u)) (fun r u he => absurd he (hb r u)) h

end Stencil.Merge
