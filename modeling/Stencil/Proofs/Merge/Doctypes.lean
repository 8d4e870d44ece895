import Stencil.Proofs.Merge.Flanks

/-!
Two doctypes are compared only if the walk over both pages brings them together. Where all that stands before them gives
way, it does; where something does not and a page begins with its doctype, it does not.
-/

namespace Stencil.Merge

open Node Grade

variable {α : Type} [Grade α] [Counting α] [Positive α] [Ordered α] {chain : Scope} {around : Around}
  {s t : MergeState} {fuel : Nat} {v w : String} {a b : Node} {restA restB before after before' after' : List Node}
  {taken : Taken}

section Met

theorem not_front_doctypes (hno : Unmarked around)
    (hdiffer : Text.lower (Text.strip v) ≠ Text.lower (Text.strip w)) (hflanks : Flanks [] after [] after') :
    ¬ Front α (mergeNode α fuel) chain around (.literal .doctype v) (.literal .doctype w) after after' s taken t := by
  have hpos : zero < (Score.score false (.literal .doctype v) (.literal .doctype w) : α) := Score.lt_score_doctypes v w
  have hbest : Score.isBestMatch (.literal .doctype v) (.literal .doctype w)
      (Score.score false (.literal .doctype v) (.literal .doctype w) : α) after after' = true := by
    apply Score.isBestMatch_of_zero hpos (Ordered.not_lt_zero hpos)
    · intro n hn
      obtain ⟨hliteral, -, hkind⟩ := hflanks.of_mem (n := n) (by simp [hn])
      exact Score.score_of_doctype_left hliteral hkind
    · intro n hn
      obtain ⟨-, -, hkind⟩ := hflanks.of_mem (n := n) (by simp [hn])
      exact Score.score_of_doctype_right hkind
  intro h
  cases h with
  | blocks h => exact not_returns_mergeBlocks hno.left h
  | runs _ h =>
    cases Returns.mergeRuns h with
    | mk _ _ hisA => cases hisA
  | pair _ _ h =>
    obtain ⟨u, -, h⟩ := Returns.mergePair h
    obtain ⟨-, -, hmerge⟩ := h.of_literals (by trivial) (by trivial)
    exact not_returns_doctypes hdiffer hmerge
  | left _ _ hno _ _ =>
    rw [hbest] at hno
    cases hno
  | right _ _ hno _ _ =>
    rw [hbest] at hno
    cases hno

theorem Front.leaves_doctypes (hno : Unmarked around)
    (hdiffer : Text.lower (Text.strip v) ≠ Text.lower (Text.strip w)) (hflanks : Flanks before after before' after')
    (hleft : GivesWay after' after.length before) (hright : GivesWay after (after'.length + 1) before')
    (has : a :: restA = before ++ .literal .doctype v :: after)
    (hbs : b :: restB = before' ++ .literal .doctype w :: after')
    (h : Front α (mergeNode α fuel) chain around a b restA restB s taken t) :
    taken.left ≤ before.length ∧ taken.right ≤ before'.length := by
  have hafter (n : Node) (hn : n ∈ after) : n.Literal := (hflanks.of_mem (by simp [hn])).1
  have hafter' (n : Node) (hn : n ∈ after') : n.Literal := (hflanks.of_mem (by simp [hn])).1
  cases before with
  | nil =>
    cases has
    cases before' with
    | nil =>
      cases hbs
      exact absurd h (not_front_doctypes hno hdiffer hflanks)
    | cons c rest' =>
      obtain ⟨rfl, rfl⟩ : b = c ∧ restB = rest' ++ .literal .doctype w :: after' := List.cons.inj hbs
      obtain ⟨hb, -, hkind⟩ := hflanks.of_mem (n := b) (by simp)
      rcases h.of_kind_ne hno (.inl rfl) (Ne.symm hkind) with ⟨-, -, hextra⟩ | ⟨htaken, htaken', -⟩
      · rw [leftIsExtra_doctype_left hb hkind, Bool.and_eq_true, decide_eq_true_eq] at hextra
        have hlength := hright.1 (Score.kind_mem_of_hasBetterPartner hb hafter hextra.1)
        omega
      · exact ⟨by omega, by simp [htaken']⟩
  | cons c rest =>
    obtain ⟨rfl, rfl⟩ : a = c ∧ restA = rest ++ .literal .doctype v :: after := List.cons.inj has
    obtain ⟨ha, -, hkind⟩ := hflanks.of_mem (n := a) (by simp)
    cases before' with
    | nil =>
      cases hbs
      rcases h.of_kind_ne hno (.inr rfl) hkind with ⟨htaken, htaken', -⟩ | ⟨-, -, hextra⟩
      · exact ⟨by simp [htaken], by omega⟩
      · rw [leftIsExtra_doctype_right hkind, Bool.or_eq_false_iff, Bool.not_eq_false', decide_eq_false_iff_not]
          at hextra
        have hlength := hleft.1 (Score.kind_mem_of_hasBetterPartner ha hafter' hextra.1)
        omega
    | cons c rest' =>
      obtain ⟨rfl, rfl⟩ : b = c ∧ restB = rest' ++ .literal .doctype w :: after' := List.cons.inj hbs
      obtain ⟨htaken, htaken'⟩ := h.before_doctypes hno ha (hflanks.of_mem (n := b) (by simp)).1
      simp only [List.length_cons]
      exact ⟨by omega, by omega⟩

theorem not_walk_of_givesWay (hno : Unmarked around) (hdiffer : Text.lower (Text.strip v) ≠ Text.lower (Text.strip w))
    (hflanks : Flanks before after before' after') (hleft : GivesWay after' after.length before)
    (hright : GivesWay after (after'.length + 1) before') {ns : List Node} :
    ¬ Walk α (mergeNode α fuel) chain around (before ++ .literal .doctype v :: after)
      (before' ++ .literal .doctype w :: after') s ns t := by
  intro h
  generalize has : before ++ .literal .doctype v :: after = as at h
  generalize hbs : before' ++ .literal .doctype w :: after' = bs at h
  induction h generalizing before before' with
  | done => simp at has
  | @both a b restA restB ns taken _ _ _ hfront _ ih =>
    obtain ⟨htaken, htaken'⟩ := hfront.leaves_doctypes hno hdiffer hflanks hleft hright has.symm hbs.symm
    apply ih (hflanks.drop taken.left taken.right) (hleft.drop taken.left) (hright.drop taken.right)
    · rw [← has, List.drop_append_of_le_length htaken]
    · rw [← hbs, List.drop_append_of_le_length htaken']
  | left => simp at hbs
  | right => simp at has

end Met

section Missed

theorem undisputed_front (has : ∀ n ∈ a :: restA, n.kind ≠ .literal .doctype → n.LiteralsIn Undeclared)
    (hbs : ∀ n ∈ b :: restB, n.kind ≠ .literal .doctype → n.LiteralsIn Undeclared)
    (hone : a.kind ≠ .literal .doctype ∨ b.kind ≠ .literal .doctype) :
    FailsIn Undisputed (mergeFronts α (mergeNode α fuel) chain around a b restA restB) s := by
  have helement (n : Node) (hn : n.isElement = true) : n.kind ≠ .literal .doctype := by
    obtain ⟨name, hname⟩ := kind_of_isElement hn
    rw [hname]
    exact fun he => nomatch he
  have hagrees : Agrees Undeclared (mergeNode α fuel) := agrees_mergeNode (fun hv => absurd rfl hv) fuel
  apply undisputed_mergeFronts hagrees
  · exact fun n hn he => has n hn (helement n he)
  · exact fun n hn he => hbs n hn (helement n he)
  · intro hpartners
    have hkind := kind_of_partners hpartners
    have ha : a.kind ≠ .literal .doctype := hone.elim id fun hb => hkind ▸ hb
    exact ⟨has a List.mem_cons_self ha, hbs b List.mem_cons_self (hkind ▸ ha)⟩

theorem undisputed_align {as bs : List Node} {steps : Nat} (hsteps : as.length + bs.length ≤ steps)
    (has : ∀ n ∈ as, n.kind ≠ .literal .doctype → n.LiteralsIn Undeclared)
    (hbs : ∀ n ∈ bs, n.kind ≠ .literal .doctype → n.LiteralsIn Undeclared)
    (hone : (∀ n ∈ as, n.kind ≠ .literal .doctype) ∨ ∀ n ∈ bs, n.kind ≠ .literal .doctype) :
    FailsIn Undisputed (align α (mergeNode α fuel) chain around steps as bs) s := by
  refine failsIn_align hsteps fun a restA b restB u ha hb => ?_
  apply undisputed_front (fun n hn => has n (ha.subset hn)) fun n hn => hbs n (hb.subset hn)
  exact hone.imp (fun h => h a (ha.subset List.mem_cons_self)) fun h => h b (hb.subset List.mem_cons_self)

theorem not_givesWay_rest (first : Bool) {n : Node} {rest opposite : List Node} {following : Nat} (hn : n.Literal)
    (hopposite : ∀ m ∈ opposite, m.Literal) (hfits : Counting.Fits α (sizeOfList (n :: rest) + sizeOfList opposite))
    (hwaits : Score.hasBetterPartner first n (zero : α) opposite = true → opposite.length ≤ rest.length + following)
    (hmiss : ¬ GivesWay opposite following (n :: rest)) : ¬ GivesWay opposite following rest := by
  intro hrest
  refine hmiss ⟨fun hmem => hwaits ?_, hrest⟩
  rw [Score.hasBetterPartner_iff hn hopposite]
  · exact hmem
  · intro m hm
    have hsize := size_le_sizeOfList hm
    exact Counting.fits_mono (by rw [sizeOfList]; omega) hfits

theorem undisputed_align_cons (hno : Unmarked around) (helement : a.isElement = false ∨ b.isElement = false)
    (hkind : a.kind ≠ b.kind) (has : ∀ n ∈ a :: restA, n.kind ≠ .literal .doctype → n.LiteralsIn Undeclared)
    (hbs : ∀ n ∈ b :: restB, n.kind ≠ .literal .doctype → n.LiteralsIn Undeclared) {steps : Nat}
    (hleft : leftIsExtra α a b (Score.score false a b) restA restB = true →
      ∀ u, FailsIn Undisputed (align α (mergeNode α fuel) chain around steps restA (b :: restB)) u)
    (hright : leftIsExtra α a b (Score.score false a b) restA restB = false →
      ∀ u, FailsIn Undisputed (align α (mergeNode α fuel) chain around steps (a :: restA) restB) u) :
    FailsIn Undisputed (align α (mergeNode α fuel) chain around (steps + 1) (a :: restA) (b :: restB)) s := by
  have hone : a.kind ≠ .literal .doctype ∨ b.kind ≠ .literal .doctype := by
    by_contra hboth
    rw [not_or, not_ne_iff, not_ne_iff] at hboth
    exact hkind (hboth.1.trans hboth.2.symm)
  rw [align, failsIn_bind]
  refine ⟨undisputed_front has hbs hone, fun taken u hf => ?_⟩
  have hrest : FailsIn Undisputed (align α (mergeNode α fuel) chain around steps ((a :: restA).drop taken.left)
      ((b :: restB).drop taken.right)) u := by
    rcases (Returns.front hf).of_kind_ne hno helement hkind with ⟨htaken, htaken', hextra⟩ | ⟨htaken, htaken', hextra⟩
    · rw [htaken, htaken']
      exact hleft hextra u
    · rw [htaken, htaken']
      exact hright hextra u
  simp [hrest]

theorem undisputed_align_left (hno : Unmarked around) (hflanks : Flanks [] after before' after')
    (hfits : Counting.Fits α (sizeOfList before' + sizeOfList after))
    (hmiss : ¬ GivesWay after (after'.length + 1) before') {steps : Nat}
    (hsteps : after.length + 1 + (before'.length + (after'.length + 1)) ≤ steps) :
    FailsIn Undisputed (align α (mergeNode α fuel) chain around steps (.literal .doctype v :: after)
      (before' ++ .literal .doctype w :: after')) s := by
  induction before' generalizing steps s with
  | nil => exact absurd trivial hmiss
  | cons b rest ih =>
    obtain ⟨steps, rfl⟩ : ∃ k, steps = k + 1 := ⟨steps - 1, by omega⟩
    obtain ⟨hb, -, hkind⟩ := hflanks.of_mem (n := b) (by simp)
    have hafter (n : Node) (hn : n ∈ after) : n.Literal ∧ n.LiteralsIn Undeclared ∧ n.kind ≠ .literal .doctype :=
      hflanks.of_mem (by simp [hn])
    have hbs : ∀ n ∈ b :: (rest ++ .literal .doctype w :: after'), n.kind ≠ .literal .doctype →
        n.LiteralsIn Undeclared := (hflanks.undeclared_pages v w).2
    rw [List.length_cons] at hsteps
    apply undisputed_align_cons hno (.inl rfl) (Ne.symm hkind) (hflanks.undeclared_pages v w).1 hbs
    · intro _ u
      apply undisputed_align _ (fun n hn _ => (hafter n hn).2.1) hbs (.inl fun n hn => (hafter n hn).2.2)
      simp only [List.length_cons, List.length_append]
      omega
    · intro hextra u
      have hrest : ¬ GivesWay after (after'.length + 1) rest := by
        refine not_givesWay_rest false hb (fun n hn => (hafter n hn).1) hfits (fun hwaits => ?_) hmiss
        rw [leftIsExtra_doctype_left hb hkind, hwaits, Bool.true_and, decide_eq_false_iff_not] at hextra
        omega
      apply ih (hflanks.drop 0 1) (Counting.fits_mono (by rw [sizeOfList]; omega) hfits) hrest
      omega

theorem undisputed_align_right (hno : Unmarked around) (hflanks : Flanks before after [] after')
    (hfits : Counting.Fits α (sizeOfList before + sizeOfList after'))
    (hmiss : ¬ GivesWay after' after.length before) {steps : Nat}
    (hsteps : before.length + (after.length + 1) + (after'.length + 1) ≤ steps) :
    FailsIn Undisputed (align α (mergeNode α fuel) chain around steps (before ++ .literal .doctype v :: after)
      (.literal .doctype w :: after')) s := by
  induction before generalizing steps s with
  | nil => exact absurd trivial hmiss
  | cons a rest ih =>
    obtain ⟨steps, rfl⟩ : ∃ k, steps = k + 1 := ⟨steps - 1, by omega⟩
    obtain ⟨ha, -, hkind⟩ := hflanks.of_mem (n := a) (by simp)
    have hafter' (n : Node) (hn : n ∈ after') : n.Literal ∧ n.LiteralsIn Undeclared ∧ n.kind ≠ .literal .doctype :=
      hflanks.of_mem (by simp [hn])
    have has : ∀ n ∈ a :: (rest ++ .literal .doctype v :: after), n.kind ≠ .literal .doctype →
        n.LiteralsIn Undeclared := (hflanks.undeclared_pages v w).1
    rw [List.length_cons] at hsteps
    apply undisputed_align_cons hno (.inr rfl) hkind has (hflanks.undeclared_pages v w).2
    · intro hextra u
      have hrest : ¬ GivesWay after' after.length rest := by
        refine not_givesWay_rest true ha (fun n hn => (hafter' n hn).1) hfits (fun hwaits => ?_) hmiss
        rw [leftIsExtra_doctype_right hkind, hwaits, Bool.not_true, Bool.false_or, decide_eq_true_eq] at hextra
        omega
      apply ih (hflanks.drop 1 0) (Counting.fits_mono (by rw [sizeOfList]; omega) hfits) hrest
      omega
    · intro _ u
      apply undisputed_align _ has (fun n hn _ => (hafter' n hn).2.1) (.inr fun n hn => (hafter' n hn).2.2)
      simp only [List.length_cons, List.length_append]
      omega

def Clear (before after before' after' : List Node) : Prop :=
  GivesWay after' after.length before ∧ GivesWay after (after'.length + 1) before'

instance : Decidable (Clear before after before' after') :=
  inferInstanceAs (Decidable (_ ∧ _))

theorem undisputed_of_blocked (hflanks : Flanks before after before' after') (hfirst : before = [] ∨ before' = [])
    (hfits : Counting.Fits α (sizeOfList before + sizeOfList after + (sizeOfList before' + sizeOfList after')))
    (hblocked : ¬ Clear before after before' after') :
    FailsIn Undisputed (lists α [] {} (before ++ .literal .doctype v :: after)
      (before' ++ .literal .doctype w :: after')) s := by
  rw [lists, mergeSiblings, failsIn_bind]
  refine ⟨failsIn_mergeInline _ _, fun found u _ => ?_⟩
  cases found with
  | some ns => exact failsIn_pure ns
  | none =>
    rcases hfirst with rfl | rfl
    · have hmiss : ¬ GivesWay after (after'.length + 1) before' := fun hright => hblocked ⟨trivial, hright⟩
      exact undisputed_align_left unmarked_root hflanks (Counting.fits_mono (by omega) hfits) hmiss (by simp)
    · have hmiss : ¬ GivesWay after' after.length before := fun hleft => hblocked ⟨hleft, trivial⟩
      exact undisputed_align_right unmarked_root hflanks (Counting.fits_mono (by omega) hfits) hmiss (by simp)

end Missed

omit [Counting α] [Positive α] [Ordered α] in
theorem undisputed_of_agreeing (hflanks : Flanks before after before' after')
    (hagree : Text.lower (Text.strip v) = Text.lower (Text.strip w)) :
    FailsIn Undisputed (lists α chain around (before ++ .literal .doctype v :: after)
      (before' ++ .literal .doctype w :: after')) s := by
  let p : LiteralKind → String → Prop := fun k x => k = .doctype → Text.lower (Text.strip x) = Text.lower (Text.strip w)
  have hp {x y : String} (hx : p .doctype x) (hy : p .doctype y) :
      Text.lower (Text.strip x) = Text.lower (Text.strip y) := (hx rfl).trans (hy rfl).symm
  obtain ⟨has, hbs⟩ := hflanks.forall_pages (P := LiteralsIn p) (v := v) (w := w)
    (fun n _ hn => LiteralsIn.mono (fun hk hdoctype => absurd hdoctype hk) n hn) (fun _ => hagree) fun _ => rfl
  exact undisputed_mergeSiblings (agrees_mergeNode hp _) (allLiteralsIn_iff.mpr has) (allLiteralsIn_iff.mpr hbs)

theorem eq_of_doctype_mem (hother : ∀ n ∈ before ++ after, n.kind ≠ .literal .doctype) {x : String}
    (h : .literal .doctype x ∈ before ++ .literal .doctype v :: after) : x = v := by
  simp only [List.mem_append, List.mem_cons, literal.injEq, true_and] at h
  rcases h with h | rfl | h
  · exact absurd rfl (hother _ (List.mem_append_left _ h))
  · rfl
  · exact absurd rfl (hother _ (List.mem_append_right _ h))

theorem Returns.keeps_doctypes (hflanks : Flanks before after before' after')
    (hdiffer : Text.lower (Text.strip v) ≠ Text.lower (Text.strip w)) {ns : List Node}
    (h : Returns (lists α chain {} (before ++ .literal .doctype v :: after)
      (before' ++ .literal .doctype w :: after')) s ns t) : .literal .doctype v ∈ ns ∧ .literal .doctype w ∈ ns := by
  obtain ⟨has, hbs⟩ := hflanks.forall_pages (P := Literal) (v := v) (w := w) (fun _ hn _ => hn) trivial trivial
  have hdiffers (x y : String) (hx : .literal .doctype x ∈ before ++ .literal .doctype v :: after)
      (hy : .literal .doctype y ∈ before' ++ .literal .doctype w :: after') :
      Text.lower (Text.strip x) ≠ Text.lower (Text.strip y) := by
    rw [eq_of_doctype_mem (fun n hn => (hflanks.of_mem (List.mem_append_left _ hn)).2.2) hx,
      eq_of_doctype_mem (fun n hn => (hflanks.of_mem (List.mem_append_right _ hn)).2.2) hy]
    exact hdiffer
  have hwalk := Returns.mergeSiblings_walk rfl h
  constructor
  · exact hwalk.keeps_doctypes unmarked_root has hbs hdiffers (.inl (by simp))
  · exact hwalk.keeps_doctypes unmarked_root has hbs hdiffers (.inr (by simp))

/-- Doctypes that agree never stop a merge. Doctypes that differ do where the way between them is clear. Where it is not
and one of the pages begins with its doctype, they are not compared, and every layout of two such pages has both. -/
theorem doctypes_compared (hflanks : Flanks before after before' after') (s : MergeState) :
    let as := before ++ .literal .doctype v :: after
    let bs := before' ++ .literal .doctype w :: after'
    (Text.lower (Text.strip v) = Text.lower (Text.strip w) →
      ∀ x y, ((lists α [] {} as bs).run s).1 ≠ .error (.doctypesDiffer x y)) ∧
    (Text.lower (Text.strip v) ≠ Text.lower (Text.strip w) →
      (Clear before after before' after' → ∃ f, ((lists α [] {} as bs).run s).1 = .error f ∧ f ≠ .outOfFuel) ∧
      (¬ Clear before after before' after' → before = [] ∨ before' = [] →
        Counting.Fits α (sizeOfList before + sizeOfList after + (sizeOfList before' + sizeOfList after')) →
        ∀ x y, ((lists α [] {} as bs).run s).1 ≠ .error (.doctypesDiffer x y)) ∧
      ∀ ns t, Returns (lists α [] {} as bs) s ns t → .literal .doctype v ∈ ns ∧ .literal .doctype w ∈ ns) := by
  intro as bs
  constructor
  · intro hagree x y hrun
    exact undisputed_of_agreeing hflanks hagree _ hrun x y rfl
  · intro hdiffer
    refine ⟨?_, ?_, ?_⟩
    · rintro ⟨hleft, hright⟩
      rcases hrun : (lists α [] {} as bs).run s with ⟨f | ns, t⟩
      · refine ⟨f, rfl, ?_⟩
        rintro rfl
        exact finishes_lists [] {} as bs s (congrArg Prod.fst hrun)
      · have hwalk := Returns.mergeSiblings_walk rfl (show Returns (lists α [] {} as bs) s ns t from hrun)
        exact absurd hwalk (not_walk_of_givesWay unmarked_root hdiffer hflanks hleft hright)
    · intro hblocked hfirst hfits x y hrun
      exact undisputed_of_blocked hflanks hfirst hfits hblocked _ hrun x y rfl
    · intro ns t h
      exact h.keeps_doctypes hflanks hdiffer

theorem doctypes_compared_pages :
    let before : List Node := [.literal .comment "x"]
    let after : List Node := [.element ⟨"html", []⟩ []]
    let as := before ++ .literal .doctype "html" :: after
    Flanks before after [] after ∧ Text.lower (Text.strip "html") ≠ Text.lower (Text.strip "svg") ∧
      Clear before after [] after ∧
      ∃ f, ((lists Rat [] {} as (.literal .doctype "svg" :: after)).run {}).1 = .error f ∧ f ≠ .outOfFuel := by
  intro before after as
  have hflanks : Flanks before after [] after :=
    ⟨by simp [before, after, LiteralList, Literal], by simp [before, after, AllLiteralsIn, LiteralsIn]⟩
  have hdiffer : Text.lower (Text.strip "html") ≠ Text.lower (Text.strip "svg") := by decide
  have hclear : Clear before after [] after := by decide
  exact ⟨hflanks, hdiffer, hclear, ((doctypes_compared hflanks {}).2 hdiffer).1 hclear⟩

/-- The doctypes wait for each other, and so do the comments: the walk sets a doctype aside. -/
theorem doctypes_pass_each_other :
    Text.lower (Text.strip "html") ≠ Text.lower (Text.strip "svg") ∧
      ∃ ns t, Returns (lists Rat [] {} [.literal .comment "x", .literal .doctype "html"]
          [.literal .doctype "svg", .literal .comment "x"]) {} ns t ∧
        sameList ns [.literal .doctype "svg", .literal .comment "x", .literal .doctype "html"] = true := by
  refine ⟨by decide, exists_returns (f := fun ns => sameList ns [.literal .doctype "svg", .literal .comment "x",
    .literal .doctype "html"]) ?_⟩
  decide +kernel

end Stencil.Merge
