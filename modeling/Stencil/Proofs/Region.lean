import Stencil.Proofs.Region.Cutting

namespace Stencil

namespace Page

open Node

variable {m : RegionMarks} {l : Locus} {before : List Node} {n converted : Node} {current : Option (List Node)}

/-- What a computation that cuts regions out gives: unless they are `n ≥ 2` with contents, that many contents,
and `k` marks. -/
def Outcome {β : Type} (found : β → Option (List Node)) (marks : β → Nat) (n k : Nat) : Except Failure β → Prop
  | .ok x => (found x).isSome.toNat = n ∧ marks x = k
  | .error f => f = .secondRegion ∧ 2 ≤ n

namespace Outcome

variable {β γ : Type} {found : β → Option (List Node)} {marks : β → Nat} {found' : γ → Option (List Node)}
  {marks' : γ → Nat} {a b k k' : Nat} {x : Except Failure β} {f : β → Except Failure γ}

theorem bind (hx : Outcome found marks a k x)
    (hf : ∀ y, x = .ok y → (found y).isSome.toNat = a → marks y = k → Outcome found' marks' b k' (f y))
    (hle : a ≤ b) : Outcome found' marks' b k' (x >>= f) := by
  cases x with
  | error e => exact ⟨hx.1, Nat.le_trans hx.2 hle⟩
  | ok y => exact hf y rfl hx.1 hx.2

theorem congr_marks {marks' : β → Nat} (hx : Outcome found marks a k x)
    (hmarks : a ≤ 1 → ∀ y, marks y = k → marks' y = k') : Outcome found marks' a k' x := by
  cases x with
  | error e => exact hx
  | ok y =>
    have hle : a ≤ 1 := hx.1 ▸ Bool.toNat_le _
    exact ⟨hx.1, hmarks hle y hx.2⟩

end Outcome

def closeLast (c : Cut) : Except Failure Cut :=
  if c.reading then c.stop else .ok c

theorem closeLast_outcome {c : Cut} (h : Cut.Follows current c) :
    Outcome Cut.found (fun d => contentMarksOfList d.kept + contentMarksOfList (d.found.getD []))
      (c.due current.toList) c.marks (closeLast c) := by
  have hdue_nil (d : Cut) : d.due [] = d.found.isSome.toNat := by
    rw [Cut.due, filled, List.dropWhile_nil, List.length_nil, ite_self, Nat.add_zero]
  have hreading := h.reading
  cases current with
  | none =>
    rw [closeLast, hreading, Option.isSome_none, if_neg Bool.false_ne_true]
    exact ⟨(hdue_nil c).symm, by simp [Cut.marks, hreading]⟩
  | some r =>
    rw [closeLast, hreading, Option.isSome_some, if_pos rfl]
    have hstop := Cut.stop_spec h
    cases hc : c.stop with
    | error f =>
      rw [hc] at hstop
      exact ⟨hstop.1, hstop.2 []⟩
    | ok d =>
      rw [hc] at hstop
      obtain ⟨hfollows, hmarks, hdue⟩ := hstop
      have hd : d.reading = false := hfollows.reading
      refine ⟨(hdue_nil d).symm.trans (hdue []), ?_⟩
      rw [← hmarks, Cut.marks, hd, if_neg Bool.false_ne_true, Nat.add_zero]

theorem cutNode_eq (above : Locus) (before after : List Node) (found : Option (List Node)) (t : Tag)
    (cs : List Node) :
    cutNode m above before after found (.element t cs) = (do
      let l : Locus := ⟨t, cs, before, after, some above⟩
      let first : Cut := { found }
      let cut ← cutChildren m l [] (if m.inside l then first.start else first) cs >>= closeLast
      return (.element t cut.kept.reverse, cut.found)) := by
  rw [cutNode]
  simp only [bind_assoc]
  refine congrArg _ (funext fun c => ?_)
  rw [closeLast]
  split <;> rfl

theorem cutChildren_cons (c : Cut) (cs : List Node) :
    cutChildren m l before c (n :: cs) = (do
      let (converted, found) ← cutNode m l before cs c.found n
      let c ← Cut.advance m (childLocus? l before cs n) converted { c with found }
      cutChildren m l (n :: before) c cs) := by
  rw [cutChildren.eq_def]
  dsimp only
  refine congrArg _ (funext fun r => ?_)
  by_cases hstop : (c.reading && (childLocus? l before cs n).any m.before) = true
  · simp only [Cut.advance, if_pos hstop, bind_assoc]
    exact if_pos hstop
  · simp only [Cut.advance, if_neg hstop, bind_assoc]
    exact if_neg hstop

theorem isBlankText_of_cutNode {above : Locus} {after : List Node} {found found' : Option (List Node)}
    (h : cutNode m above before after found n = .ok (converted, found')) :
    converted.isBlankText = n.isBlankText := by
  cases n with
  | element t cs =>
    rw [cutNode_eq] at h
    obtain ⟨_, -, h⟩ := bind_eq_ok.mp h
    cases h
    rfl
  | _ => cases h; rfl

mutual
theorem cutNode_outcome (above : Locus) (before after : List Node) (found : Option (List Node)) (n : Node) :
    Outcome Prod.snd (fun r => r.1.contentMarks + contentMarksOfList (r.2.getD []))
      (found.isSome.toNat + filledCount m (Locus.withinNode above before after n))
      (n.contentMarks + contentMarksOfList (found.getD []) + regionCount m (Locus.withinNode above before after n))
      (cutNode m above before after found n) := by
  cases n with
  | element t cs =>
    rw [cutNode_eq, Locus.withinNode]
    let l : Locus := ⟨t, cs, before, after, some above⟩
    let first : Cut := { found }
    -- an element that is marked inside begins with an open region
    let opened : Option (List Node) := if m.inside l then some [] else none
    have hfollows : Cut.Follows opened (if m.inside l then first.start else first) := by
      simp only [opened]
      split
      · exact Cut.start_follows
      · exact ⟨rfl, nofun, nofun, fun _ => .inl rfl⟩
    have hmarks : (if m.inside l then first.start else first).marks =
        contentMarksOfList (found.getD []) + opened.isSome.toNat := by
      simp only [opened]
      split <;> simp [Cut.marks, Cut.start, first, contentMarksOfList, Node.contentMarks, Nat.add_comm]
    have hdue (rs : List (List Node)) : (if m.inside l then first.start else first).due rs =
        found.isSome.toNat + (filled rs).length := by
      split <;> rfl
    have hcut := cutChildren_outcome l [] opened _ hfollows cs
    have hdue' : (if m.inside l then first.start else first).due (regionsFrom m l [] opened cs) =
        found.isSome.toNat + (filled (regions m l)).length := hdue _
    rw [hdue', hmarks] at hcut
    rw [filledCount_cons, regionCount_cons, ← Nat.add_assoc]
    refine hcut.bind (fun c _ hfound hkept => ⟨hfound, ?_⟩) (Nat.le_refl _)
    change contentMarksOfList c.kept.reverse + contentMarksOfList (c.found.getD []) =
      contentMarksOfList cs + contentMarksOfList (found.getD []) + ((regionsFrom m l [] opened cs).length +
        regionCount m (Locus.descendantsOf l [] cs))
    rw [contentMarksOfList_reverse]
    omega
  | _ => exact ⟨rfl, rfl⟩

theorem cutChildren_outcome (l : Locus) (before : List Node) (current : Option (List Node)) (c : Cut)
    (h : Cut.Follows current c) (cs : List Node) :
    Outcome Cut.found
      (fun d => contentMarksOfList d.kept + contentMarksOfList (d.found.getD []) + current.isSome.toNat)
      (c.due (regionsFrom m l before current cs) + filledCount m (Locus.descendantsOf l before cs))
      (c.marks + contentMarksOfList cs + (regionsFrom m l before current cs).length +
        regionCount m (Locus.descendantsOf l before cs))
      (cutChildren m l before c cs >>= closeLast) := by
  cases cs with
  | nil =>
    have hclose := closeLast_outcome h
    refine hclose.congr_marks fun _ d hd => ?_
    rw [hd]
    cases current <;> rfl
  | cons n cs =>
    rw [cutChildren_cons, Locus.descendantsOf, filledCount_append, regionCount_append, bind_assoc]
    have hle : c.found.isSome.toNat + filledCount m (Locus.withinNode l before cs n) ≤
        c.due (regionsFrom m l before current (n :: cs)) +
          (filledCount m (Locus.withinNode l before cs n) + filledCount m (Locus.descendantsOf l (n :: before) cs)) := by
      rw [Cut.due]
      omega
    -- first the child itself is cut, then the cut moves behind it, then the rest follows
    refine (cutNode_outcome l before cs c.found n).bind ?_ hle
    rintro ⟨converted, found⟩ hconverted hfound hmarks
    have hstep := Cut.advance_spec (m := m) (childLocus? l before cs n) (h.found_grows hfound)
      (isBlankText_of_cutNode hconverted)
    have hdue := Cut.due_found hfound
    rw [regionsFrom]
    generalize passChild m (childLocus? l before cs n) n current = passed at hstep ⊢
    obtain ⟨ended, next⟩ := passed
    dsimp only at hstep ⊢
    have hlater : GoesOn next (regionsFrom m l (n :: before) next cs) := regionsFrom_goesOn cs _ _
    cases hadvance : Cut.advance m (childLocus? l before cs n) converted { c with found } with
    | error f =>
      rw [hadvance] at hstep
      obtain ⟨rfl, htwo⟩ := hstep
      have hmany := htwo _ hlater
      rw [hdue] at hmany
      exact ⟨rfl, by omega⟩
    | ok d =>
      rw [hadvance] at hstep
      obtain ⟨hfollows, hd⟩ := hstep
      obtain ⟨hdue', hmarks'⟩ := hd _ hlater
      have hrest := cutChildren_outcome l (n :: before) next d hfollows cs
      rw [← Nat.add_assoc, ← hdue, ← hdue']
      -- marks are compared only where at most one region is found
      refine hrest.congr_marks fun hfew e he => ?_
      have hd := hmarks' (by omega)
      simp only [Cut.marks, contentMarksOfList, List.length_append] at he hmarks hd ⊢
      omega
end

def Made (n k : Nat) : Except Failure Page → Prop
  | .ok page => n ≤ 1 ∧ page.contentMarks = k
  | .error f => f = .secondRegion ∧ 2 ≤ n

theorem cutRoots_made (doc : Locus) (cs before kept : List Node) (found : Option (List Node)) :
    Made (found.isSome.toNat + filledCount m (Locus.descendantsOf doc before cs))
      (contentMarksOfList kept + contentMarksOfList (found.getD []) + contentMarksOfList cs +
        regionCount m (Locus.descendantsOf doc before cs))
      (cutRoots m doc before kept found cs) := by
  induction cs generalizing before kept found with
  | nil =>
    refine ⟨Bool.toNat_le _, ?_⟩
    rw [contentMarks, contentMarksOfList_reverse]
    rfl
  | cons n cs ih =>
    rw [cutRoots, Locus.descendantsOf, filledCount_append, regionCount_append]
    have hnode := cutNode_outcome (m := m) doc before cs found n
    cases hc : cutNode m doc before cs found n with
    | error f =>
      rw [hc] at hnode
      exact ⟨hnode.1, by have := hnode.2; omega⟩
    | ok r =>
      rw [hc] at hnode
      obtain ⟨hfound, hmarks⟩ := hnode
      have hrest := ih (n :: before) (r.1 :: kept) r.2
      rw [← Nat.add_assoc, ← hfound]
      have hk : contentMarksOfList (r.1 :: kept) + contentMarksOfList (r.2.getD []) + contentMarksOfList cs +
            regionCount m (Locus.descendantsOf doc (n :: before) cs) =
          contentMarksOfList kept + contentMarksOfList (found.getD []) + contentMarksOfList (n :: cs) +
            (regionCount m (Locus.withinNode doc before cs n) +
              regionCount m (Locus.descendantsOf doc (n :: before) cs)) := by
        simp only [contentMarksOfList] at hmarks ⊢
        omega
      rw [← hk]
      exact hrest

theorem ofNodes_made (roots : List Node) :
    Made (filledCount m (Locus.document roots).descendants)
      (contentMarksOfList roots + regionCount m (Locus.document roots).descendants) (ofNodes m roots) := by
  have hmade := cutRoots_made (m := m) (Locus.document roots) roots [] [] none
  simp only [contentMarksOfList, Option.isSome_none, Bool.toNat_false, Option.getD_none, Nat.zero_add] at hmade
  exact hmade

theorem ofMarkup_eq_ofNodes {config : RegionConfig} (markup : String) (h : RegionMarks.ofConfig config = .ok m) :
    ofMarkup markup config = ofNodes m (Markup.parse markup) := by
  rw [ofMarkup, h]
  rfl

/-- A document is read exactly if at most one region counts as filled, and else the failure is that of a second region.
The page then has a mark for each region, so that a document with more than one region is refused, and no page
has more than one mark, just where all regions are one or two of them count as filled. -/
theorem single_region_iff (m : RegionMarks) (markup : String) :
    let elements := (Locus.document (Markup.parse markup)).descendants
    let result := ofNodes m (Markup.parse markup)
    (∀ config, RegionMarks.ofConfig config = .ok m → ofMarkup markup config = result) ∧
    ((∃ page, result = .ok page) ↔ filledCount m elements ≤ 1) ∧
    (result = .error .secondRegion ↔ 2 ≤ filledCount m elements) ∧
    (∀ page, result = .ok page → page.contentMarks = regionCount m elements) ∧
    ((∀ page, result = .ok page → page.contentMarks ≤ 1) ↔
      regionCount m elements ≤ 1 ∨ 2 ≤ filledCount m elements) := by
  intro elements result
  refine ⟨fun config hconfig => ofMarkup_eq_ofNodes markup hconfig, ?_⟩
  have hmade : Made (filledCount m elements) (regionCount m elements) result := by
    have h := ofNodes_made (m := m) (Markup.parse markup)
    rwa [contentMarksOfList_of_literal _ (Markup.parse_literal markup), Nat.zero_add] at h
  clear_value result
  cases result with
  | error f =>
    obtain ⟨rfl, htwo⟩ := hmade
    refine ⟨⟨nofun, fun h => ?_⟩, ⟨fun _ => htwo, fun _ => rfl⟩, nofun, ⟨fun _ => .inr htwo, fun _ => nofun⟩⟩
    omega
  | ok page =>
    obtain ⟨hone, hmarks⟩ := hmade
    refine ⟨⟨fun _ => hone, fun _ => ⟨page, rfl⟩⟩, ⟨nofun, fun h => ?_⟩, ?_, ?_⟩
    · omega
    · rintro _ ⟨⟩
      exact hmarks
    · constructor
      · intro h
        exact .inl (hmarks ▸ h page rfl)
      · rintro h _ ⟨⟩
        omega

/-- An empty region leaves its mark and does not keep a second one out. -/
theorem empty_region_passes : ¬ ∀ (markup : String) (config : RegionConfig) (page : Page),
    ofMarkup markup config = .ok page → page.contentMarks ≤ 1 := by
  intro h
  have hmarks : ((ofMarkup "<main></main><main><p>A</p></main>" { inside := some "main" }).toOption.map
      contentMarks) = some 2 := by
    decide +kernel
  cases hpage : ofMarkup "<main></main><main><p>A</p></main>" { inside := some "main" } with
  | error f =>
    rw [hpage] at hmarks
    cases hmarks
  | ok page =>
    rw [hpage] at hmarks
    have htwo := Option.some.inj hmarks
    have hone := h _ _ page hpage
    omega

end Page

end Stencil
