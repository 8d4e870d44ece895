import Mathlib.Data.List.Induction
import Stencil.Proofs.Region

/-!
Cutting out a content region loses nothing: with the contents put back in place of their mark, the layout is the tree
of the whole document again. Only the line feed that stands for a blank text at the end of the contents is new.
-/

namespace Stencil

namespace Node

mutual
def putBack (contents : List Node) : Node → List Node
  | element t cs => [element t (putBackList contents cs)]
  | content => contents
  | n => [n]

def putBackList (contents : List Node) : List Node → List Node
  | [] => []
  | n :: rest => putBack contents n ++ putBackList contents rest
end

mutual
def withoutBlanks : Node → Node
  | element t cs => element t (dropBlanks cs)
  | n => n

def dropBlanks : List Node → List Node
  | [] => []
  | n :: rest => if n.isBlankText then dropBlanks rest else withoutBlanks n :: dropBlanks rest
end

variable {contents contents' : List Node}

theorem putBackList_append (as bs : List Node) :
    putBackList contents (as ++ bs) = putBackList contents as ++ putBackList contents bs := by
  induction as with
  | nil => rfl
  | cons a as ih => rw [List.cons_append, putBackList, ih, putBackList, List.append_assoc]

mutual
theorem putBack_of_no_mark : (n : Node) → n.contentMarks = 0 → putBack contents n = [n]
  | literal .., _ | slot .., _ | block .., _ | foreign, _ => rfl
  | content, h => absurd h Nat.one_ne_zero
  | element t cs, h => by rw [putBack, putBackList_of_no_mark cs h]

theorem putBackList_of_no_mark : (ns : List Node) → contentMarksOfList ns = 0 → putBackList contents ns = ns
  | [], _ => rfl
  | n :: ns, h => by
    have hn : n.contentMarks = 0 := Nat.eq_zero_of_add_eq_zero_right h
    have hns : contentMarksOfList ns = 0 := Nat.eq_zero_of_add_eq_zero_left h
    rw [putBackList, putBack_of_no_mark n hn, putBackList_of_no_mark ns hns, List.singleton_append]
end

theorem dropBlanks_append (as bs : List Node) : dropBlanks (as ++ bs) = dropBlanks as ++ dropBlanks bs := by
  induction as with
  | nil => rfl
  | cons a as ih =>
    rw [List.cons_append, dropBlanks, ih, dropBlanks]
    split <;> rfl

mutual
theorem dropBlanks_putBack (h : dropBlanks contents = dropBlanks contents') :
    (n : Node) → dropBlanks (putBack contents n) = dropBlanks (putBack contents' n)
  | literal .. | slot .. | block .. | foreign => rfl
  | content => h
  | element t cs => by
    simp only [putBack, dropBlanks, isBlankText, withoutBlanks, dropBlanks_putBackList h cs]
    rfl

theorem dropBlanks_putBackList (h : dropBlanks contents = dropBlanks contents') :
    (ns : List Node) → dropBlanks (putBackList contents ns) = dropBlanks (putBackList contents' ns)
  | [] => rfl
  | n :: ns => by
    rw [putBackList, putBackList, dropBlanks_append, dropBlanks_append, dropBlanks_putBack h n,
      dropBlanks_putBackList h ns]
end

end Node

namespace Page

open Node

def body (contents : List Node) : List Node :=
  if contents.getLast?.any isBlankText then contents.dropLast else contents

theorem body_concat (ns : List Node) (n : Node) :
    body (ns ++ [n]) = if n.isBlankText then ns else ns ++ [n] := by
  simp [body]

theorem dropBlanks_body (contents : List Node) : dropBlanks (body contents) = dropBlanks contents := by
  cases contents using List.reverseRecOn with
  | nil => rfl
  | append_singleton ns n =>
    rw [body_concat]
    split
    next hblank => rw [dropBlanks_append, dropBlanks, if_pos hblank, dropBlanks, List.append_nil]
    next => rfl

variable {m : RegionMarks} {n converted : Node} {before : List Node} {current : Option (List Node)} {k : Nat}

namespace Cut

variable {c : Cut}

/-- Where a cut is that has come behind `before`, with `current` as the open region, and how many more regions there may
be: the open one counts until it ends. -/
inductive Holds (before : List Node) : Option (List Node) → Nat → Cut → Prop
  | untouched : Holds before none 1 { kept := before }
  | opened {kept taken r : List Node} : contentMarksOfList kept = 0 → taken ++ kept = before →
    Holds before (some r) 1 { kept := .content :: kept, taken, reading := true }
  | closed {kept taken : List Node} {found : Option (List Node)} :
    putBackList (body (found.getD [])) kept.reverse = before.reverse → Holds before none 0 { kept, taken, found }

theorem Holds.found_eq_none (h : Holds before current 1 c) : c.found = none := by
  cases h <;> rfl

theorem Holds.le_one (h : Holds before current k c) : k ≤ 1 := by
  cases h <;> omega

theorem Holds.reading (h : Holds before current k c) : c.reading = current.isSome := by
  cases h <;> rfl

theorem Holds.stop {r : List Node} (h : Holds before (some r) 1 c) :
    ∃ d, c.stop = .ok d ∧ Holds before none 0 d := by
  cases h with
  | @opened kept taken _ hkept hbefore =>
    subst hbefore
    have hreverse : contentMarksOfList kept.reverse = 0 := by rwa [contentMarksOfList_reverse]
    cases taken with
    | nil =>
      refine ⟨_, rfl, .closed ?_⟩
      rw [List.reverse_cons, putBackList_append, putBackList_of_no_mark _ hreverse]
      exact List.append_nil _
    | cons last rest =>
      simp only [Cut.stop]
      split
      next hlast =>
        -- the blank text goes behind the mark, and a line feed stands for it
        refine ⟨_, rfl, .closed ?_⟩
        have hmark : last.contentMarks = 0 := contentMarks_of_isBlankText hlast
        simp only [Option.getD_some, List.reverse_cons, putBackList_append, putBackList_of_no_mark _ hreverse,
          body_concat, putBackList, putBack, putBack_of_no_mark _ hmark, List.append_nil, List.cons_append,
          List.reverse_append, List.append_assoc]
        rfl
      next hlast =>
        refine ⟨_, rfl, .closed ?_⟩
        simp only [Option.getD_some, List.reverse_cons, putBackList_append, putBackList_of_no_mark _ hreverse,
          body_concat, if_neg hlast, putBackList, putBack, List.append_nil, List.cons_append, List.reverse_append,
          List.append_assoc]

def Restored (n : Node) (found : Option (List Node)) (k : Nat) (r : Node × Option (List Node)) : Prop :=
  (k = 0 ∧ r = (n, found)) ∨ k = 1 ∧ putBack (body (r.2.getD [])) r.1 = [n]

theorem Holds.put_outside (h : Holds before none k c) (hn : n.contentMarks = 0) :
    Holds (n :: before) none k (c.put n) := by
  cases h with
  | untouched => exact .untouched
  | closed hback =>
    refine .closed ?_
    rw [List.reverse_cons, List.reverse_cons, putBackList_append, hback, putBackList, putBack_of_no_mark n hn]
    rfl

theorem Holds.put_inside {r : List Node} (h : Holds before (some r) k c) (hn : n.contentMarks = 0) :
    Holds (n :: before) (some (r ++ [n])) k (c.put n) := by
  cases h with
  | @opened kept taken _ hkept hbefore =>
    subst hbefore
    cases hmoved : n.isBlankText && taken.isEmpty with
    | true =>
      -- blank texts in front of all else move before the mark
      obtain ⟨-, hempty⟩ := Bool.and_eq_true_iff.mp hmoved
      obtain rfl := List.isEmpty_iff.mp hempty
      have hput : Cut.put { kept := .content :: kept, taken := [], reading := true } n =
          { kept := .content :: n :: kept, taken := [], reading := true } := by
        simp only [Cut.put, if_pos, hmoved]
      rw [hput]
      refine .opened ?_ rfl
      rw [contentMarksOfList, hn, hkept]
    | false =>
      have hput : Cut.put { kept := .content :: kept, taken, reading := true } n =
          { kept := .content :: kept, taken := n :: taken, reading := true } := by
        simp only [Cut.put, if_pos, hmoved]
      rw [hput]
      exact .opened hkept rfl

theorem Holds.start (h : Holds before none 1 c) (hbefore : contentMarksOfList before = 0) :
    Holds before (some []) 1 c.start := by
  cases h
  exact .opened hbefore rfl

theorem Holds.put_restored {r : Node × Option (List Node)} (h : Holds before none 1 c)
    (hbefore : contentMarksOfList before = 0) (hback : putBack (body (r.2.getD [])) r.1 = [n]) :
    Holds (n :: before) none 0 (Cut.put { c with found := r.2 } r.1) := by
  cases h
  refine .closed ?_
  rw [List.reverse_cons, List.reverse_cons, putBackList_append, putBackList, hback,
    putBackList_of_no_mark _ (by rwa [contentMarksOfList_reverse])]
  rfl

theorem Holds.advance_outside {here : Option Locus} {rest : Nat} (h : Holds before none k c)
    (hn : n.contentMarks = 0) (hbefore : contentMarksOfList before = 0) (hrest : rest ≤ k)
    (hopens : here.any m.after = true → 1 ≤ rest) :
    ∃ d k', Cut.advance m here n c = .ok d ∧
      Holds (n :: before) (if here.any m.after then some [] else none) k' d ∧ rest ≤ k' := by
  rw [advance_of_not_reading h.reading]
  have hput := h.put_outside hn
  split
  next hafter =>
    have hone : k = 1 := Nat.le_antisymm h.le_one (Nat.le_trans (hopens hafter) hrest)
    subst hone
    refine ⟨_, 1, rfl, hput.start ?_, hrest⟩
    rw [contentMarksOfList, hn, hbefore]
  next => exact ⟨_, k, rfl, hput, hrest⟩

theorem Holds.advance (here : Option Locus) (rest : Nat) {r : Node × Option (List Node)} {j : Nat}
    (h : Holds before current k c) (hr : Restored n c.found j r) (hn : n.contentMarks = 0)
    (hbefore : contentMarksOfList before = 0)
    (hopens : (passChild m here n current).2.isSome = true → 1 ≤ rest)
    (hcount : (passChild m here n current).1.length + rest + j ≤ k) :
    ∃ d k', Cut.advance m here r.1 { c with found := r.2 } = .ok d ∧
      Holds (n :: before) (passChild m here n current).2 k' d ∧ rest ≤ k' := by
  cases current with
  | none =>
    rw [passChild_none] at hopens hcount ⊢
    have hafter : here.any m.after = true → 1 ≤ rest := fun hafter => hopens (by rw [hafter]; rfl)
    rw [List.length_nil] at hcount
    obtain ⟨rfl, rfl⟩ | ⟨rfl, hback⟩ := hr
    · exact h.advance_outside hn hbefore (by omega) hafter
    · have hone : k = 1 := by have := h.le_one; omega
      subst hone
      have hnone : here.any m.after = false := Bool.eq_false_iff.mpr fun hopen => by have := hafter hopen; omega
      rw [advance_of_not_reading (c := { c with found := r.2 }) h.reading, hnone]
      exact ⟨_, 0, rfl, h.put_restored hbefore hback, by omega⟩
  | some region =>
    have hone : k = 1 := by cases h; rfl
    subst hone
    cases hends : here.any m.before with
    | false =>
      rw [passChild_of_goesOn hends] at hopens hcount ⊢
      have hrest : 1 ≤ rest := hopens rfl
      obtain ⟨rfl, rfl⟩ | ⟨rfl, -⟩ := hr
      · exact ⟨_, 1, advance_of_goesOn h.reading hends, h.put_inside hn, by omega⟩
      · omega
    | true =>
      rw [passChild_of_ends hends] at hopens hcount ⊢
      rw [List.length_singleton] at hcount
      obtain ⟨rfl, rfl⟩ | ⟨rfl, -⟩ := hr
      · obtain ⟨d, hstop, hd⟩ := h.stop
        rw [advance_of_ends h.reading hends hstop hd.reading]
        exact hd.advance_outside hn hbefore (by omega) fun hafter => hopens (by rw [hafter]; rfl)
      · omega

theorem Holds.closeLast (h : Holds before current k c) (hbefore : contentMarksOfList before = 0) :
    ∃ d, Page.closeLast c = .ok d ∧ putBackList (body (d.found.getD [])) d.kept.reverse = before.reverse := by
  have hreverse : contentMarksOfList before.reverse = 0 := by rwa [contentMarksOfList_reverse]
  cases h with
  | untouched => exact ⟨_, rfl, putBackList_of_no_mark _ hreverse⟩
  | closed hback => exact ⟨_, rfl, hback⟩
  | @opened kept taken r hkept htaken =>
    obtain ⟨d, hstop, hd⟩ := Holds.stop (.opened (r := r) hkept htaken)
    refine ⟨d, hstop, ?_⟩
    cases hd with
    | closed hback => exact hback

end Cut

mutual
theorem cutNode_unmarked (above : Locus) (before after : List Node) (found : Option (List Node)) (n : Node)
    (h : regionCount m (Locus.withinNode above before after n) = 0) :
    cutNode m above before after found n = .ok (n, found) := by
  cases n with
  | element t cs =>
    rw [Locus.withinNode, regionCount_cons] at h
    obtain ⟨hregions, hnested⟩ := Nat.add_eq_zero_iff.mp h
    have hnone := List.eq_nil_of_length_eq_zero hregions
    rw [cutNode_eq]
    dsimp only
    rw [regions] at hnone
    split at hnone
    next =>
      -- a region that is open has an end
      obtain ⟨rest, later, heq⟩ := regionsFrom_goesOn (m := m) cs [] (some []) [] rfl
      rw [heq] at hnone
      cases hnone
    next hinside =>
      rw [if_neg hinside, cutChildren_unmarked _ [] [] [] found cs hnone hnested, List.append_nil]
      simp [bind, Except.bind, pure, Except.pure, closeLast]
  | _ => rfl
termination_by structural n

theorem cutChildren_unmarked (l : Locus) (before kept taken : List Node) (found : Option (List Node)) (cs : List Node)
    (hregions : regionsFrom m l before none cs = []) (hnested : regionCount m (Locus.descendantsOf l before cs) = 0) :
    cutChildren m l before { kept, taken, found } cs = .ok { kept := cs.reverse ++ kept, taken, found } := by
  cases cs with
  | nil => rfl
  | cons n cs =>
    rw [Locus.descendantsOf, regionCount_append] at hnested
    obtain ⟨hchild, hrest⟩ := Nat.add_eq_zero_iff.mp hnested
    rw [regionsFrom, passChild_none] at hregions
    obtain ⟨-, hlater⟩ := List.append_eq_nil_iff.mp hregions
    split at hlater
    next =>
      obtain ⟨rest, later, heq⟩ := regionsFrom_goesOn (m := m) (l := l) cs (n :: before) (some []) [] rfl
      rw [heq] at hlater
      cases hlater
    next hafter =>
      rw [cutChildren_cons, cutNode_unmarked l before cs found n hchild]
      dsimp only [bind, Except.bind]
      rw [Cut.advance_of_not_reading rfl, if_neg hafter]
      dsimp only
      rw [Cut.put_of_not_reading rfl, cutChildren_unmarked l (n :: before) (n :: kept) taken found cs hlater hrest,
        List.reverse_cons, List.append_assoc]
      rfl
termination_by structural cs
end

mutual
theorem cutNode_restores (above : Locus) (before after : List Node) (found : Option (List Node)) (n : Node)
    (hn : n.contentMarks = 0) (hone : regionCount m (Locus.withinNode above before after n) ≤ 1)
    (hfound : regionCount m (Locus.withinNode above before after n) = 1 → found = none) :
    ∃ r, cutNode m above before after found n = .ok r ∧
      Cut.Restored n found (regionCount m (Locus.withinNode above before after n)) r := by
  by_cases hzero : regionCount m (Locus.withinNode above before after n) = 0
  · exact ⟨_, cutNode_unmarked above before after found n hzero, .inl ⟨hzero, rfl⟩⟩
  have hcount : regionCount m (Locus.withinNode above before after n) = 1 := by omega
  obtain rfl := hfound hcount
  cases n with
  | element t cs =>
    rw [hcount]
    rw [Locus.withinNode, regionCount_cons] at hcount
    let l : Locus := ⟨t, cs, before, after, some above⟩
    let first : Cut := {}
    have hholds :
        Cut.Holds [] (if m.inside l then some [] else none) 1 (if m.inside l then first.start else first) := by
      split
      · exact .opened rfl rfl
      · exact .untouched
    obtain ⟨d, hcut, hback⟩ := cutChildren_restores l [] _ 1 _ hholds rfl cs hn (Nat.le_of_eq hcount)
    refine ⟨(.element t d.kept.reverse, d.found), ?_, .inr ⟨rfl, ?_⟩⟩
    · rw [cutNode_eq]
      exact bind_eq_ok.mpr ⟨d, hcut, rfl⟩
    · rw [putBack, hback]
      rfl
  | _ => exact absurd rfl hzero

theorem cutChildren_restores (l : Locus) (before : List Node) (current : Option (List Node)) (k : Nat) (c : Cut)
    (h : Cut.Holds before current k c) (hbefore : contentMarksOfList before = 0) (cs : List Node)
    (hcs : contentMarksOfList cs = 0)
    (hcount : (regionsFrom m l before current cs).length + regionCount m (Locus.descendantsOf l before cs) ≤ k) :
    ∃ d, (cutChildren m l before c cs >>= closeLast) = .ok d ∧
      putBackList (body (d.found.getD [])) d.kept.reverse = before.reverse ++ cs := by
  cases cs with
  | nil =>
    rw [List.append_nil]
    exact h.closeLast hbefore
  | cons n cs =>
    obtain ⟨hn, hcs⟩ := Nat.add_eq_zero_iff.mp hcs
    rw [regionsFrom, Locus.descendantsOf, regionCount_append, List.length_append] at hcount
    have hone := h.le_one
    obtain ⟨r, hcut, hr⟩ := cutNode_restores l before cs c.found n hn (by omega) fun hchild => by
      have : k = 1 := by omega
      subst this
      exact h.found_eq_none
    have hopens : (passChild m (childLocus? l before cs n) n current).2.isSome = true →
        1 ≤ (regionsFrom m l (n :: before) (passChild m (childLocus? l before cs n) n current).2 cs).length +
          regionCount m (Locus.descendantsOf l (n :: before) cs) := by
      intro hopen
      obtain ⟨region, hregion⟩ := Option.isSome_iff_exists.mp hopen
      obtain ⟨rest, later, heq⟩ := regionsFrom_goesOn (m := m) (l := l) cs (n :: before) _ _ hregion
      rw [heq, List.length_cons]
      omega
    obtain ⟨d, k', hadvance, hd, hk⟩ := h.advance (m := m) _ _ hr hn hbefore hopens (by omega)
    have hbefore' : contentMarksOfList (n :: before) = 0 := by rw [contentMarksOfList, hn, hbefore]
    obtain ⟨e, hrest, hback⟩ := cutChildren_restores l (n :: before) _ k' d hd hbefore' cs hcs hk
    refine ⟨e, ?_, ?_⟩
    · rw [cutChildren_cons, hcut, bind_assoc]
      dsimp only [bind, Except.bind]
      rw [hadvance]
      exact hrest
    · rw [hback, List.reverse_cons, List.append_assoc, List.singleton_append]
end

theorem cutRoots_restores (doc : Locus) (cs before kept : List Node) (found : Option (List Node))
    (h : Cut.Holds before none k { kept, found }) (hbefore : contentMarksOfList before = 0)
    (hcs : contentMarksOfList cs = 0) (hcount : regionCount m (Locus.descendantsOf doc before cs) ≤ k) :
    ∃ page, cutRoots m doc before kept found cs = .ok page ∧
      putBackList (body page.contents) page.layout = before.reverse ++ cs := by
  induction cs generalizing before kept found k with
  | nil =>
    obtain ⟨d, hd, hback⟩ := h.closeLast hbefore
    cases hd
    refine ⟨_, rfl, ?_⟩
    rw [List.append_nil]
    exact hback
  | cons n cs ih =>
    obtain ⟨hn, hcs⟩ := Nat.add_eq_zero_iff.mp hcs
    rw [Locus.descendantsOf, regionCount_append] at hcount
    have hone := h.le_one
    obtain ⟨r, hcut, hr⟩ := cutNode_restores (m := m) doc before cs found n hn (by omega) fun hchild => by
      have : k = 1 := by omega
      subst this
      exact h.found_eq_none
    -- at the top there is no element that a mark could be on
    have hpassed : passChild m none n none = ([], none) := passChild_none
    obtain ⟨d, k', hadvance, hd, hk⟩ := h.advance (m := m) none
      (regionCount m (Locus.descendantsOf doc (n :: before) cs)) hr hn hbefore (by rw [hpassed]; nofun)
      (by rw [hpassed, List.length_nil]; omega)
    rw [Cut.advance_of_not_reading rfl] at hadvance
    cases hadvance
    rw [hpassed] at hd
    have hbefore' : contentMarksOfList (n :: before) = 0 := by rw [contentMarksOfList, hn, hbefore]
    obtain ⟨page, hpage, hback⟩ := ih (n :: before) (r.1 :: kept) r.2 hd hbefore' hcs hk
    refine ⟨page, ?_, ?_⟩
    · rw [cutRoots, hcut]
      exact hpage
    · rw [hback, List.reverse_cons, List.append_assoc, List.singleton_append]

theorem cutRoots_unmarked (doc : Locus) (cs before kept : List Node) (found : Option (List Node))
    (h : regionCount m (Locus.descendantsOf doc before cs) = 0) :
    cutRoots m doc before kept found cs = .ok { layout := kept.reverse ++ cs, contents := found.getD [] } := by
  induction cs generalizing before kept with
  | nil => rw [List.append_nil]; rfl
  | cons n cs ih =>
    rw [Locus.descendantsOf, regionCount_append] at h
    obtain ⟨hchild, hrest⟩ := Nat.add_eq_zero_iff.mp h
    rw [cutRoots, cutNode_unmarked doc before cs found n hchild]
    dsimp only [bind, Except.bind]
    rw [ih (n :: before) (n :: kept) hrest, List.reverse_cons, List.append_assoc]
    rfl

theorem regionsFrom_of_no_selectors (l : Locus) (before cs : List Node) : regionsFrom {} l before none cs = [] := by
  induction cs generalizing before with
  | nil => rfl
  | cons n cs ih =>
    rw [regionsFrom, passChild_none]
    cases childLocus? l before cs n <;> exact ih _

theorem regionCount_of_no_selectors (ls : List Locus) : regionCount {} ls = 0 := by
  induction ls with
  | nil => rfl
  | cons l ls ih => rw [regionCount_cons, ih]; exact congrArg List.length (regionsFrom_of_no_selectors l [] l.children)

theorem ofMarkup_of_no_selectors (markup : String) : ofMarkup markup {} = .ok { layout := Markup.parse markup } :=
  (ofMarkup_eq_ofNodes markup rfl).trans (cutRoots_unmarked _ _ [] [] none (regionCount_of_no_selectors _))

theorem ofNodes_restores {roots : List Node} (hroots : contentMarksOfList roots = 0)
    (hcount : regionCount m (Locus.document roots).descendants ≤ 1) :
    ∃ page, ofNodes m roots = .ok page ∧ putBackList (body page.contents) page.layout = roots :=
  cutRoots_restores (Locus.document roots) roots [] [] none .untouched rfl hroots hcount

/-- With one mark in its layout and none in its contents, a page gives the document back that it was cut out of: the
contents belong in the place of the mark, node for node, but for the line feed that stands for a blank text. -/
theorem region_put_back (m : RegionMarks) (markup : String) (page : Page)
    (hpage : ofNodes m (Markup.parse markup) = .ok page) (hlayout : contentMarksOfList page.layout = 1)
    (hcontents : contentMarksOfList page.contents = 0) :
    (∀ config, RegionMarks.ofConfig config = .ok m → ofMarkup markup config = .ok page) ∧
    ∃ whole, ofMarkup markup {} = .ok { layout := whole } ∧
      putBackList (body page.contents) page.layout = whole ∧
      dropBlanks (putBackList page.contents page.layout) = dropBlanks whole := by
  refine ⟨fun config hconfig => (ofMarkup_eq_ofNodes markup hconfig).trans hpage, _,
    ofMarkup_of_no_selectors markup, ?_⟩
  have hroots := contentMarksOfList_of_literal _ (Markup.parse_literal markup)
  have hmade := ofNodes_made (m := m) (Markup.parse markup)
  rw [hpage, hroots, Nat.zero_add] at hmade
  have hcount : regionCount m (Locus.document (Markup.parse markup)).descendants = 1 := by
    rw [← hmade.2, contentMarks, hlayout, hcontents]
  obtain ⟨page', hpage', hback⟩ := ofNodes_restores hroots (Nat.le_of_eq hcount)
  cases hpage.symm.trans hpage'
  refine ⟨hback, ?_⟩
  rw [← hback]
  exact dropBlanks_putBackList (dropBlanks_body page.contents).symm page.layout

theorem region_put_back_between_marks :
    let markup := "<div><h1>T</h1> <p>A</p>\n<footer>F</footer></div>"
    let m : RegionMarks := { after := Selector.named "h1", before := Selector.named "footer" }
    ∃ page, ofNodes m (Markup.parse markup) = .ok page ∧ contentMarksOfList page.layout = 1 ∧
      contentMarksOfList page.contents = 0 ∧ page.contents.length = 2 ∧
      dropBlanks (putBackList page.contents page.layout) = dropBlanks (Markup.parse markup) := by
  intro markup m
  have hmade : (ofNodes m (Markup.parse markup)).toOption.map (fun page =>
      (contentMarksOfList page.layout, contentMarksOfList page.contents, page.contents.length)) = some (1, 0, 2) := by
    decide +kernel
  cases hpage : ofNodes m (Markup.parse markup) with
  | error f => rw [hpage] at hmade; cases hmade
  | ok page =>
    rw [hpage] at hmade
    obtain ⟨hlayout, hcontents, hlength⟩ : _ = 1 ∧ _ = 0 ∧ page.contents.length = 2 := by
      simpa using Option.some.inj hmade
    obtain ⟨-, whole, hwhole, -, hback⟩ := region_put_back m markup page hpage hlayout hcontents
    cases (ofMarkup_of_no_selectors markup).symm.trans hwhole
    exact ⟨page, rfl, hlayout, hcontents, hlength, hback⟩

end Page

end Stencil
