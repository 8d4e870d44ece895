import Stencil.Proofs.Merge.Cases
import Stencil.Proofs.Merge.Step

namespace Stencil

namespace Merge

open Node

def Conditioned (ns : List Node) : Prop :=
  ∃ r template, Node.block .conditional r template ∈ ns

def isConditional : Node → Bool
  | .block .conditional .. => true
  | _ => false

theorem conditioned_iff {ns : List Node} : ns.any isConditional = true ↔ Conditioned ns := by
  rw [List.any_eq_true]
  constructor
  · rintro ⟨n, hmem, hn⟩
    unfold isConditional at hn
    split at hn
    · exact ⟨_, _, hmem⟩
    · cases hn
  · rintro ⟨r, template, hmem⟩
    exact ⟨_, hmem, rfl⟩

def parted (ns : List Node) : Bool :=
  ns.any fun n => match n with
    | .element _ cs => cs.any isConditional
    | n => isConditional n

theorem isConditional_of_same {m n : Node} (h : m.same n = true) : isConditional m = isConditional n := by
  cases m <;> cases n <;> simp only [Node.same, Bool.false_eq_true, Bool.and_eq_true, beq_iff_eq] at h
  case block.block k _ _ l _ _ =>
    obtain ⟨⟨rfl, -⟩, -⟩ := h
    cases k <;> rfl
  all_goals rfl

theorem any_of_sameList {p : Node → Bool} (hp : ∀ {m n : Node}, m.same n = true → p m = p n) {ms ns : List Node}
    (h : sameList ms ns = true) : ms.any p = ns.any p := by
  induction ms generalizing ns with
  | nil =>
    cases ns with
    | nil => rfl
    | cons n ns => cases h
  | cons m ms ih =>
    cases ns with
    | nil => cases h
    | cons n ns =>
      rw [sameList, Bool.and_eq_true] at h
      rw [List.any_cons, List.any_cons, hp h.1, ih h.2]

theorem parted_of_sameList {ms ns : List Node} (h : sameList ms ns = true) : parted ms = parted ns := by
  refine any_of_sameList (fun {m n} h => ?_) h
  have hself := isConditional_of_same h
  cases m <;> cases n <;> simp only [Node.same, Bool.false_eq_true, Bool.and_eq_true] at h
  case element.element => exact any_of_sameList isConditional_of_same h.2
  all_goals exact hself

theorem Conditioned.parted {ns : List Node} (h : Conditioned ns) : parted ns = true := by
  obtain ⟨r, template, hmem⟩ := h
  exact List.any_eq_true.mpr ⟨_, hmem, rfl⟩

theorem Conditioned.drop {ns : List Node} {count : Nat} (h : Conditioned ns)
    (hno : ∀ n ∈ ns.take count, n.isBlankText = true ∨ n.isElement = true) : Conditioned (ns.drop count) := by
  obtain ⟨r, template, hmem⟩ := h
  refine ⟨r, template, ?_⟩
  rw [← List.take_append_drop count ns, List.mem_append] at hmem
  rcases hmem with hmem | hmem
  · rcases hno _ hmem with hblank | helement
    · cases hblank
    · cases helement
  · exact hmem

variable {α : Type} [Grade α] {chain : Scope} {around : Around} {s t : MergeState} {fuel : Nat}

theorem conditional_of_merge {r : Reference} {template b n : Node} (hb : b.Literal)
    (h : Returns (mergeNode α fuel chain around (.block .conditional r template) b) s n t) :
    ∃ merged, n = .block .conditional r merged := by
  cases fuel with
  | zero => exact absurd h not_returns_throw
  | succ fuel =>
    cases Returns.mergeStep h with
    | conditionals => exact hb.elim
    | conditionalLeft => exact ⟨_, rfl⟩
    | conditionalRight => exact hb.elim
    | absorbLeft helement => cases helement
    | readLeft => exact hb.elim
    | kept hkept => cases hkept

theorem Unmatched.single {side : Side} {enclosing : Option Tag} {n m : Node} {rest : List Node} {count : Nat}
    (hblocks : Markdown.allowsBlocks enclosing = false) (h : Unmatched chain side enclosing n rest s m count t) :
    count = 1 ∧ ∀ r template, n = .block .conditional r template → m = n := by
  cases h with
  | block => exact ⟨rfl, fun _ _ _ => rfl⟩
  | markdown hblock =>
    rw [hblocks] at hblock
    cases hblock
  | _ => exact ⟨rfl, fun _ _ he => by cases he⟩

theorem Unmatched.of_element {side : Side} {enclosing : Option Tag} {tag : Tag} {cs : List Node} {m : Node}
    {rest : List Node} {count : Nat} (hblocks : Markdown.allowsBlocks enclosing = false)
    (h : Unmatched chain side enclosing (.element tag cs) rest s m count t) :
    ∃ r template, m = .block .conditional r template := by
  cases h with
  | markdown hblock =>
    rw [hblocks] at hblock
    cases hblock
  | wrapped _ hwrapped =>
    cases Returns.wrapElement hwrapped with
    | mk => exact ⟨_, _, rfl⟩

theorem conditioned_cons {a : Node} {as : List Node} :
    Conditioned (a :: as) ↔ (∃ r template, a = .block .conditional r template) ∨ Conditioned as := by
  constructor
  · rintro ⟨r, template, hmem⟩
    rcases List.mem_cons.mp hmem with ha | hmem
    · exact .inl ⟨r, template, ha.symm⟩
    · exact .inr ⟨r, template, hmem⟩
  · rintro (⟨r, template, rfl⟩ | ⟨r, template, hmem⟩)
    · exact ⟨r, template, List.mem_cons_self⟩
    · exact ⟨r, template, List.mem_cons_of_mem _ hmem⟩

theorem Front.conditioned (hblocks : Markdown.allowsBlocks around.left = false) {a b : Node} {restA restB : List Node}
    {taken : Taken} (hb : b.Literal) (has : Conditioned (a :: restA))
    (h : Front α (mergeNode α fuel) chain around a b restA restB s taken t) :
    (∃ r template, taken.node = .block .conditional r template) ∨
      Conditioned ((a :: restA).drop taken.left) := by
  cases h with
  | blocks h => exact absurd h (not_returns_mergeBlocks hblocks)
  | runs _ h =>
    obtain ⟨_, -, hisA, -, hrunA, -, -, -⟩ := Returns.mergeRuns h
    right
    rcases conditioned_cons.mp has with ⟨r, template, rfl⟩ | hrest
    · cases hisA
    · rw [Nat.add_comm, List.drop_succ_cons]
      refine hrest.drop fun n hn => ?_
      rw [hrunA] at hn
      exact (Score.mem_take_repeats hn).imp_right And.left
  | pair _ _ h =>
    obtain ⟨_, -, hpartners⟩ := Returns.mergePair h
    rcases conditioned_cons.mp has with ⟨r, template, rfl⟩ | hrest
    · cases hpartners with
      | absorbLeft helement => cases helement
      | merged hmerge =>
        obtain ⟨merged, hn⟩ := conditional_of_merge hb hmerge
        exact .inl ⟨r, merged, hn⟩
    · cases hpartners with
      | absorbLeft => exact hb.elim
      | absorbRight => exact .inr hrest
      | merged => exact .inr hrest
  | left _ _ _ _ h =>
    obtain ⟨rfl, hkeeps⟩ := (Returns.unmatched h).single hblocks
    rcases conditioned_cons.mp has with ⟨r, template, rfl⟩ | hrest
    · exact .inl ⟨r, template, hkeeps r template rfl⟩
    · exact .inr hrest
  | right => exact .inr has

theorem Walk.conditioned (hblocks : Markdown.allowsBlocks around.left = false) {as bs ns : List Node}
    (hbs : LiteralList bs) (has : Conditioned as)
    (h : Walk α (mergeNode α fuel) chain around as bs s ns t) : Conditioned ns := by
  induction h with
  | done => exact has
  | @both a b restA restB ns taken s u t hfront _ ih =>
    have hrest : LiteralList ((b :: restB).drop taken.right) :=
      literalList_iff.mpr fun n hn => literalList_iff.mp hbs n (List.mem_of_mem_drop hn)
    rw [conditioned_cons]
    exact (hfront.conditioned hblocks hbs.1 has).imp id (ih hrest)
  | @left a n restA ns count s u t hunmatched _ ih =>
    obtain ⟨rfl, hkeeps⟩ := (Returns.unmatched hunmatched).single hblocks
    rw [conditioned_cons] at has ⊢
    rcases has with ⟨r, template, rfl⟩ | hrest
    · exact .inl ⟨r, template, hkeeps r template rfl⟩
    · exact .inr (ih hbs hrest)
  | right => exact absurd has.choose_spec.choose_spec List.not_mem_nil

end Merge

end Stencil
