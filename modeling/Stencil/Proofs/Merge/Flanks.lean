import Stencil.Proofs.Merge.Accepted
import Stencil.Proofs.Merge.Conditionals
import Stencil.Proofs.Merge.Undisputed

/-!
Pages around their doctypes. At the front of its page a doctype waits for the doctype of the other one, and the two are
parted only by a node that waits as well. A walk that does not merge them keeps both.
-/

namespace Stencil

namespace Score

open Grade

variable {α : Type} [Grade α]

theorem score_of_doctype_left {v : String} {n : Node} (hn : n.Literal) (hkind : n.kind ≠ .literal .doctype) :
    (score false (.literal .doctype v) n : α) = zero :=
  score_of_kind_ne hn _ fun he => hkind he.symm

theorem score_of_doctype_right {w : String} {n : Node} (hkind : n.kind ≠ .literal .doctype) :
    (score false n (.literal .doctype w) : α) = zero :=
  score_of_kind_ne (a := .literal .doctype w) trivial n hkind

variable [Counting α] [Positive α]

theorem lt_score_doctypes (v w : String) :
    zero < (score false (.literal .doctype v) (.literal .doctype w) : α) := by
  simpa [score, Node.core, leafScore] using lt_mean (nonneg_textSimilarity v w)

theorem hasBetterPartner_doctype {first : Bool} {v w : String} {before after : List Node} :
    hasBetterPartner first (.literal .doctype v) (zero : α) (before ++ .literal .doctype w :: after) = true := by
  rw [hasBetterPartner, List.any_eq_true]
  refine ⟨.literal .doctype w, List.mem_append_right _ List.mem_cons_self, decide_eq_true ?_⟩
  cases first <;> exact lt_score_doctypes _ _

end Score

namespace Merge

open Node Grade

variable {α : Type} [Grade α] {chain : Scope} {around : Around} {side : Side} {s t : MergeState} {fuel : Nat}
  {v w : String} {a b : Node} {restA restB before after before' after' : List Node} {taken : Taken}

theorem not_returns_doctypes (hdiffer : Text.lower (Text.strip v) ≠ Text.lower (Text.strip w)) {n : Node} :
    ¬ Returns (mergeNode α fuel chain around (.literal .doctype v) (.literal .doctype w)) s n t := by
  cases fuel with
  | zero => exact not_returns_throw
  | succ fuel => simp [mergeNode, mergeStep, hdiffer]

theorem doctype_of_kind {n : Node} (hn : n.Literal) (h : n.kind = .literal .doctype) :
    ∃ v, n = .literal .doctype v := by
  cases n with
  | literal k v =>
    cases h
    exact ⟨v, rfl⟩
  | element => cases h
  | _ => exact hn.elim

theorem Unmatched.keeps_doctype {enclosing : Option Tag} {rest : List Node} {n : Node} {count : Nat}
    (h : Unmatched chain side enclosing (.literal .doctype v) rest s n count t) : n = .literal .doctype v := by
  cases h
  rfl

theorem Partners.of_literals {merge : NodeMerger} (ha : a.Literal) (hb : b.Literal)
    (h : Partners α merge chain around restA restB s a b taken t) :
    taken.left = 1 ∧ taken.right = 1 ∧ Returns (merge chain around a b) s taken.node t := by
  cases h with
  | absorbRight => exact ha.elim
  | absorbLeft => exact hb.elim
  | merged h => exact ⟨rfl, rfl, h⟩

theorem Front.before_doctypes {merge : NodeMerger} (hno : Unmarked around) (ha : a.Literal) (hb : b.Literal)
    (h : Front α merge chain around a b (before ++ .literal .doctype v :: after)
      (before' ++ .literal .doctype w :: after') s taken t) :
    taken.left ≤ 1 + before.length ∧ taken.right ≤ 1 + before'.length := by
  cases h with
  | blocks h => exact absurd h (not_returns_mergeBlocks hno.left)
  | runs _ h =>
    cases Returns.mergeRuns h with
    | mk _ _ _ _ hrunA hrunB _ _ =>
      subst hrunA hrunB
      exact ⟨Nat.add_le_add_left (Score.repeats_le_length rfl rfl) 1,
        Nat.add_le_add_left (Score.repeats_le_length rfl rfl) 1⟩
  | pair _ _ h =>
    obtain ⟨u, -, h⟩ := Returns.mergePair h
    obtain ⟨hleft, hright, -⟩ := h.of_literals ha hb
    exact ⟨by omega, by omega⟩
  | left _ _ _ _ h =>
    obtain ⟨rfl, -⟩ := (Returns.unmatched h).single hno.left
    exact ⟨by simp, by simp⟩
  | right _ _ _ _ h =>
    obtain ⟨rfl, -⟩ := (Returns.unmatched h).single hno.right
    exact ⟨by simp, by simp⟩

variable [Counting α] [Positive α] [Ordered α]

theorem kind_of_partners (h : isOne (Score.score false a b : α) = true ∨
    Score.isBestMatch a b (Score.score false a b : α) restA restB = true) : a.kind = b.kind :=
  kind_of_akin (akin_of_partner h)

section Kept

theorem Front.keeps_doctypes (hno : Unmarked around) (ha : a.Literal) (hb : b.Literal)
    (hdiffer : ∀ x y, a = .literal .doctype x → b = .literal .doctype y →
      Text.lower (Text.strip x) ≠ Text.lower (Text.strip y))
    (h : Front α (mergeNode α fuel) chain around a b restA restB s taken t) :
    (.literal .doctype v ∈ a :: restA →
      taken.node = .literal .doctype v ∨ .literal .doctype v ∈ (a :: restA).drop taken.left) ∧
    (.literal .doctype v ∈ b :: restB →
      taken.node = .literal .doctype v ∨ .literal .doctype v ∈ (b :: restB).drop taken.right) := by
  cases h with
  | blocks h => exact absurd h (not_returns_mergeBlocks hno.left)
  | runs _ h =>
    cases Returns.mergeRuns h with
    | mk _ _ hisA hisB hrunA hrunB _ _ =>
      subst hrunA hrunB
      rw [Nat.add_comm 1, Nat.add_comm 1, List.drop_succ_cons, List.drop_succ_cons]
      constructor
      · intro hv
        rcases List.mem_cons.mp hv with rfl | hv
        · cases hisA
        · exact .inr (Score.mem_drop_repeats rfl rfl hv)
      · intro hv
        rcases List.mem_cons.mp hv with rfl | hv
        · cases hisB
        · exact .inr (Score.mem_drop_repeats rfl rfl hv)
  | pair _ hpartners h =>
    obtain ⟨u, -, h⟩ := Returns.mergePair h
    obtain ⟨hleft, hright, hmerge⟩ := h.of_literals ha hb
    have hkind := kind_of_partners hpartners
    have hnone : a.kind ≠ .literal .doctype := by
      intro hdoctype
      obtain ⟨x, rfl⟩ := doctype_of_kind ha hdoctype
      obtain ⟨y, rfl⟩ := doctype_of_kind hb (hkind.symm.trans hdoctype)
      exact not_returns_doctypes (hdiffer x y rfl rfl) hmerge
    rw [hleft, hright]
    constructor
    · intro hv
      rcases List.mem_cons.mp hv with rfl | hv
      · exact absurd rfl hnone
      · exact .inr hv
    · intro hv
      rcases List.mem_cons.mp hv with rfl | hv
      · exact absurd hkind hnone
      · exact .inr hv
  | left _ _ _ _ h =>
    have h := Returns.unmatched h
    obtain ⟨rfl, -⟩ := h.single hno.left
    refine ⟨fun hv => ?_, fun hv => .inr hv⟩
    rcases List.mem_cons.mp hv with rfl | hv
    · exact .inl h.keeps_doctype
    · exact .inr hv
  | right _ _ _ _ h =>
    have h := Returns.unmatched h
    obtain ⟨rfl, -⟩ := h.single hno.right
    refine ⟨fun hv => .inr hv, fun hv => ?_⟩
    rcases List.mem_cons.mp hv with rfl | hv
    · exact .inl h.keeps_doctype
    · exact .inr hv

theorem Walk.keeps_doctypes (hno : Unmarked around) {as bs ns : List Node} (has : ∀ n ∈ as, n.Literal)
    (hbs : ∀ n ∈ bs, n.Literal)
    (hdiffer : ∀ x y, .literal .doctype x ∈ as → .literal .doctype y ∈ bs →
      Text.lower (Text.strip x) ≠ Text.lower (Text.strip y))
    (h : Walk α (mergeNode α fuel) chain around as bs s ns t)
    (hv : .literal .doctype v ∈ as ∨ .literal .doctype v ∈ bs) : .literal .doctype v ∈ ns := by
  induction h with
  | done => simp at hv
  | @both a b restA restB ns taken _ _ _ hfront _ ih =>
    obtain ⟨hleft, hright⟩ := hfront.keeps_doctypes (v := v) hno (has a List.mem_cons_self) (hbs b List.mem_cons_self)
      fun x y hx hy => hdiffer x y (hx ▸ List.mem_cons_self) (hy ▸ List.mem_cons_self)
    have hrest := ih (fun n hn => has n (List.mem_of_mem_drop hn)) (fun n hn => hbs n (List.mem_of_mem_drop hn))
      fun x y hx hy => hdiffer x y (List.mem_of_mem_drop hx) (List.mem_of_mem_drop hy)
    rw [List.mem_cons]
    rcases hv with hv | hv
    · exact (hleft hv).imp Eq.symm fun hv => hrest (.inl hv)
    · exact (hright hv).imp Eq.symm fun hv => hrest (.inr hv)
  | @left a n restA ns count _ _ _ h _ ih =>
    have h := Returns.unmatched h
    obtain ⟨rfl, -⟩ := h.single hno.left
    have hrest := ih (fun n hn => has n (List.mem_cons_of_mem a hn)) hbs
      fun x y hx hy => hdiffer x y (List.mem_cons_of_mem a hx) hy
    rw [List.mem_cons]
    rcases hv with hv | hv
    · rcases List.mem_cons.mp hv with rfl | hv
      · exact .inl h.keeps_doctype.symm
      · exact .inr (hrest (.inl hv))
    · exact absurd hv List.not_mem_nil
  | @right b n restB ns count _ _ _ h _ ih =>
    have h := Returns.unmatched h
    obtain ⟨rfl, -⟩ := h.single hno.right
    have hrest := ih has (fun n hn => hbs n (List.mem_cons_of_mem b hn))
      fun x y hx hy => hdiffer x y hx (List.mem_cons_of_mem b hy)
    rw [List.mem_cons]
    rcases hv with hv | hv
    · exact absurd hv List.not_mem_nil
    · rcases List.mem_cons.mp hv with rfl | hv
      · exact .inl h.keeps_doctype.symm
      · exact .inr (hrest (.inr hv))

end Kept

/-- What stands before a doctype gives way to it: of those with a node of their kind behind the other doctype, each is
followed by enough nodes that the walk sets it aside and not the other doctype. -/
def GivesWay (opposite : List Node) (following : Nat) : List Node → Prop
  | [] => True
  | n :: rest =>
    (n.kind ∈ opposite.map kind → opposite.length ≤ rest.length + following) ∧ GivesWay opposite following rest

instance GivesWay.decidable (opposite : List Node) (following : Nat) : DecidablePred (GivesWay opposite following)
  | [] => isTrue trivial
  | _ :: rest =>
    have := GivesWay.decidable opposite following rest
    inferInstanceAs (Decidable (_ ∧ _))

omit [Grade α] [Counting α] [Positive α] [Ordered α] in
theorem GivesWay.drop {opposite ns : List Node} {following : Nat} (h : GivesWay opposite following ns) (count : Nat) :
    GivesWay opposite following (ns.drop count) := by
  induction ns generalizing count with
  | nil =>
    rw [List.drop_nil]
    exact h
  | cons n rest ih =>
    cases count with
    | zero => exact h
    | succ count => exact ih h.2 count

abbrev Undeclared : LiteralKind → String → Prop := fun k _ => k ≠ .doctype

structure Flanks (before after before' after' : List Node) : Prop where
  literal : LiteralList (before ++ after ++ (before' ++ after'))
  undeclared : AllLiteralsIn Undeclared (before ++ after ++ (before' ++ after'))

section Flanks

omit [Grade α] [Counting α] [Positive α] [Ordered α]

theorem kind_ne_of_undeclared {n : Node} (hn : n.Literal) (h : n.LiteralsIn Undeclared) :
    n.kind ≠ .literal .doctype := by
  intro hkind
  obtain ⟨v, rfl⟩ := doctype_of_kind hn hkind
  exact h rfl

theorem Flanks.of_mem (h : Flanks before after before' after') {n : Node}
    (hn : n ∈ before ++ after ++ (before' ++ after')) :
    n.Literal ∧ n.LiteralsIn Undeclared ∧ n.kind ≠ .literal .doctype := by
  have hliteral := literalList_iff.mp h.literal n hn
  have hundeclared := allLiteralsIn_iff.mp h.undeclared n hn
  exact ⟨hliteral, hundeclared, kind_ne_of_undeclared hliteral hundeclared⟩

theorem Flanks.drop (h : Flanks before after before' after') (left right : Nat) :
    Flanks (before.drop left) after (before'.drop right) after' := by
  have hmem (n : Node) (hn : n ∈ before.drop left ++ after ++ (before'.drop right ++ after')) :
      n ∈ before ++ after ++ (before' ++ after') := by
    simp only [List.mem_append] at hn ⊢
    exact hn.imp (Or.imp_left List.mem_of_mem_drop) (Or.imp_left List.mem_of_mem_drop)
  exact ⟨literalList_iff.mpr fun n hn => (h.of_mem (hmem n hn)).1,
    allLiteralsIn_iff.mpr fun n hn => (h.of_mem (hmem n hn)).2.1⟩

theorem Flanks.forall_pages {P : Node → Prop} (h : Flanks before after before' after')
    (hflank : ∀ n : Node, n.Literal → n.LiteralsIn Undeclared → P n) (hv : P (.literal .doctype v))
    (hw : P (.literal .doctype w)) : (∀ n ∈ before ++ .literal .doctype v :: after, P n) ∧
      ∀ n ∈ before' ++ .literal .doctype w :: after', P n := by
  have hP (n : Node) (hn : n ∈ before ++ after ++ (before' ++ after')) : P n :=
    hflank n (h.of_mem hn).1 (h.of_mem hn).2.1
  simp only [List.forall_mem_append, List.forall_mem_cons]
  exact ⟨⟨fun n hn => hP n (by simp [hn]), hv, fun n hn => hP n (by simp [hn])⟩,
    fun n hn => hP n (by simp [hn]), hw, fun n hn => hP n (by simp [hn])⟩

theorem Flanks.undeclared_pages (v w : String) (h : Flanks before after before' after') :
    (∀ n ∈ before ++ .literal .doctype v :: after, n.kind ≠ .literal .doctype → n.LiteralsIn Undeclared) ∧
      ∀ n ∈ before' ++ .literal .doctype w :: after', n.kind ≠ .literal .doctype → n.LiteralsIn Undeclared :=
  h.forall_pages (fun _ _ hn _ => hn) (fun hkind => absurd rfl hkind) fun hkind => absurd rfl hkind

end Flanks

section Waiting

omit [Counting α] [Positive α] [Ordered α] in
theorem leftIsExtra_of_left_waits {current : α} (h : Score.hasBetterPartner true a current restB = true) :
    leftIsExtra α a b current restA restB =
      (Score.hasBetterPartner false b current restA && decide (restB.length < restA.length)) := by
  rw [leftIsExtra, h]
  cases Score.hasBetterPartner false b current restA <;> simp

omit [Counting α] [Positive α] [Ordered α] in
theorem leftIsExtra_of_right_waits {current : α} (h : Score.hasBetterPartner false b current restA = true) :
    leftIsExtra α a b current restA restB =
      (!Score.hasBetterPartner true a current restB || decide (restB.length < restA.length)) := by
  rw [leftIsExtra, h]
  cases Score.hasBetterPartner true a current restB <;> simp

omit [Ordered α] in
theorem leftIsExtra_doctype_left {rest : List Node} (hb : b.Literal) (hkind : b.kind ≠ .literal .doctype) :
    leftIsExtra α (.literal .doctype v) b (Score.score false (.literal .doctype v) b) after
      (rest ++ .literal .doctype w :: after') =
      (Score.hasBetterPartner false b (zero : α) after &&
        decide (rest.length + (after'.length + 1) < after.length)) := by
  rw [Score.score_of_doctype_left hb hkind, leftIsExtra_of_left_waits Score.hasBetterPartner_doctype,
    List.length_append, List.length_cons]

omit [Ordered α] in
theorem leftIsExtra_doctype_right {rest : List Node} (hkind : a.kind ≠ .literal .doctype) :
    leftIsExtra α a (.literal .doctype w) (Score.score false a (.literal .doctype w))
      (rest ++ .literal .doctype v :: after) after' =
      (!Score.hasBetterPartner true a (zero : α) after' ||
        decide (after'.length < rest.length + (after.length + 1))) := by
  rw [Score.score_of_doctype_right hkind, leftIsExtra_of_right_waits Score.hasBetterPartner_doctype,
    List.length_append, List.length_cons]

theorem Front.of_kind_ne {merge : NodeMerger} (hno : Unmarked around)
    (helement : a.isElement = false ∨ b.isElement = false) (hkind : a.kind ≠ b.kind) (h : Front α merge chain around a b restA restB s taken t) :
    taken.left = 1 ∧ taken.right = 0 ∧ leftIsExtra α a b (Score.score false a b) restA restB = true ∨
      taken.left = 0 ∧ taken.right = 1 ∧ leftIsExtra α a b (Score.score false a b) restA restB = false := by
  cases h with
  | blocks h => exact absurd h (not_returns_mergeBlocks hno.left)
  | runs _ h =>
    cases Returns.mergeRuns h with
    | mk _ _ hisA hisB =>
      rw [hisA, hisB] at helement
      rcases helement with h | h <;> cases h
  | pair _ hpartners _ => exact absurd (kind_of_partners hpartners) hkind
  | left _ _ _ hextra h => exact .inl ⟨((Returns.unmatched h).single hno.left).1, rfl, hextra⟩
  | right _ _ _ hextra h => exact .inr ⟨rfl, ((Returns.unmatched h).single hno.right).1, hextra⟩

end Waiting

end Merge

end Stencil
