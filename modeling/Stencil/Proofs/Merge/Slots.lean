import Stencil.Proofs.Merge.Placement

namespace Stencil.Merge

open Node

variable {α : Type} [Grade α] {Q : BlockProperty} {chain : Scope} {around : Around}
  {s t : MergeState}

theorem mergeNode_settles
    (hclosed : ∀ fuel, SettlesAll (mergeNode α fuel) Q → Closed (mergeNode α fuel) Q) (fuel : Nat) :
    SettlesAll (mergeNode α fuel) Q := by
  induction fuel with
  | zero =>
    intro chain around a b s n t _ h
    simp [mergeNode] at h
  | succ fuel ih =>
    intro chain around a b s n t hb h
    exact (Returns.mergeStep h).settles (hclosed fuel ih) (mergeNode_keeps fuel) ih hb

theorem Returns.lists_settles
    (hclosed : ∀ fuel, SettlesAll (mergeNode α fuel) Q → Closed (mergeNode α fuel) Q)
    {as bs ns : List Node} (hbs : referencesOfList bs = [])
    (h : Returns (lists α chain around as bs) s ns t) : Settles Q chain as ns s t :=
  Returns.mergeSiblings_settles (hclosed _ (mergeNode_settles hclosed _)) (mergeNode_keeps _)
    (mergeNode_settles hclosed _) hbs h

theorem Returns.lists_keeps {as bs ns : List Node} (h : Returns (lists α chain around as bs) s ns t) :
    Keeps chain (as ++ bs) ns :=
  Returns.mergeSiblings_keeps (mergeNode_keeps _) h

def Nested : BlockProperty := fun _ r template => ∀ q ∈ template.references, q.Inside r

theorem nested_closed {merge : NodeMerger} (hm : KeepsAll merge) : Closed merge Nested where
  inside h := h
  loop h := h.inside
  wrapped {chain n key} hp := by
    intro q hq
    rw [references_insertKey, List.mem_map] at hq
    obtain ⟨p, hp', rfl⟩ := hq
    have hn := (hp.within (fun h => h) (List.mem_singleton_self n)).inside p hp'
    rw [← List.append_nil chain] at hn
    simpa using hn.insertKey_below key
  merged {kind r template b around n s t} ht hb h := by
    intro q hq
    refine (hm _ _ _ _ _ _ _ h).inside r (List.prefix_refl _) (fun p hp => ?_) q
      (by simpa [referencesOfList] using hq)
    simp only [referencesOfList, List.append_nil, hb] at hp
    exact ht p hp

end Stencil.Merge
