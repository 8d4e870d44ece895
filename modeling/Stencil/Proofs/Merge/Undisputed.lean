import Stencil.Proofs.Merge.Growth
import Stencil.Proofs.Merge.Nested
import Stencil.Proofs.Node.Literals

namespace Stencil.Merge

open Node

variable {α : Type} [Grade α] {merge : NodeMerger} {chain : Scope} {around : Around} {side : Side}
  {s t : MergeState} {p : LiteralKind → String → Prop}

def Undisputed (f : Failure) : Prop :=
  ∀ v w, f ≠ .doctypesDiffer v w

instance : Failure.Lenient Undisputed where
  holds h _ _ he := h (.inl (he ▸ rfl))

structure Agrees (p : LiteralKind → String → Prop) (merge : NodeMerger) : Prop where
  merged : ∀ {chain around a b s n t}, a.LiteralsIn p → b.LiteralsIn p → Returns (merge chain around a b) s n t →
    n.LiteralsIn p
  fails : ∀ {chain around a b s}, a.LiteralsIn p → b.LiteralsIn p → FailsIn Undisputed (merge chain around a b) s

theorem literalsIn_run {n : Node} {rest : List Node} {k : Nat} (h : ∀ m ∈ n :: rest, m.LiteralsIn p) :
    ∀ m ∈ elementsIn (n :: rest.take k), m.LiteralsIn p :=
  fun _ hm => h _ (List.mem_of_mem_take (mem_elementsIn_take hm))

section Templates

variable {template n : Node} {sources as bs : List Node}

theorem Returns.extract_literalsIn (hm : Agrees p merge) {c : Scope} {x : Node × List Fields}
    (ht : template.LiteralsIn p) (hs : ∀ e ∈ sources, e.LiteralsIn p)
    (h : Returns (extract Node.same (fun t e => merge c around t e) template sources) s x t) : x.1.LiteralsIn p :=
  Returns.extract_template (LiteralsIn p) (fun ht he h => hm.merged ht (hs _ he) h) ht h

theorem undisputed_extract (hm : Agrees p merge) {c : Scope} (ht : template.LiteralsIn p)
    (hs : ∀ e ∈ sources, e.LiteralsIn p) :
    FailsIn Undisputed (extract Node.same (fun t e => merge c around t e) template sources) s :=
  failsIn_extract (LiteralsIn p) (fun ht he => hm.fails ht (hs _ he)) (fun ht he h => hm.merged ht (hs _ he) h) ht

theorem literalsIn_sources (has : ∀ a ∈ as, a.LiteralsIn p) (hbs : ∀ b ∈ bs, b.LiteralsIn p) (depth : Nat)
    (key : String) : (∀ e ∈ insertKeys depth key (as ++ bs), e.LiteralsIn p) ∧
      ((insertKeys depth key (as ++ bs)).headD .content).LiteralsIn p := by
  have hsources : ∀ e ∈ insertKeys depth key (as ++ bs), e.LiteralsIn p := by
    rw [forall_mem_insertKeys]
    intro n hn
    exact LiteralsIn.insertKey depth key n ((List.mem_append.mp hn).elim (has n) (hbs n))
  exact ⟨hsources, forall_headD hsources trivial⟩

theorem Looped.literalsIn (hm : Agrees p merge) (has : ∀ a ∈ as, a.LiteralsIn p) (hbs : ∀ b ∈ bs, b.LiteralsIn p)
    (h : Looped merge chain around as bs s n t) : n.LiteralsIn p := by
  cases h with
  | @mk key template records _ _ sources _ _ _ _ _ _ _ _ _ he hextract _ _ =>
    subst he
    obtain ⟨hsources, hhead⟩ := literalsIn_sources has hbs chain.length key
    exact Returns.extract_literalsIn hm hhead hsources hextract

theorem undisputed_buildLoop (hm : Agrees p merge) (has : ∀ a ∈ as, a.LiteralsIn p)
    (hbs : ∀ b ∈ bs, b.LiteralsIn p) : FailsIn Undisputed (buildLoop merge chain around as bs) s := by
  apply failsIn_buildLoop
  rintro key _ u rfl
  obtain ⟨hsources, hhead⟩ := literalsIn_sources has hbs chain.length key
  exact undisputed_extract hm hhead hsources

theorem Absorbed.literalsIn (hm : Agrees p merge) {r : Reference} (ht : template.LiteralsIn p)
    (hs : ∀ e ∈ sources, e.LiteralsIn p) (h : Absorbed merge around side r template sources s n t) :
    n.LiteralsIn p := by
  cases h with
  | mk hextract _ => exact Returns.extract_literalsIn hm ht hs hextract

theorem undisputed_absorb (hm : Agrees p merge) {r : Reference} (ht : template.LiteralsIn p)
    (hs : ∀ e ∈ sources, e.LiteralsIn p) : FailsIn Undisputed (absorb merge around side r template sources) s :=
  failsIn_absorb (undisputed_extract hm ht hs)

end Templates

section Siblings

variable {a b : Node} {restA restB : List Node} {taken : Taken}

theorem Unmatched.literalsIn {enclosing : Option Tag} {n m : Node} {rest : List Node} {count : Nat}
    (hn : n.LiteralsIn p) (h : Unmatched chain side enclosing n rest s m count t) : m.LiteralsIn p := by
  cases h with
  | text _ _ => trivial
  | markdown _ _ => trivial
  | wrapped _ h =>
    cases Returns.wrapElement h with
    | mk => exact LiteralsIn.insertKey _ _ _ hn
  | _ => exact hn

theorem Inlined.literalsIn {as bs ns : List Node} (h : Inlined chain as bs s ns t) : ∀ n ∈ ns, n.LiteralsIn p := by
  cases h <;> exact List.forall_mem_singleton.mpr trivial

theorem Blocks.literalsIn {as bs : List Node} (h : Blocks chain as bs s taken t) : taken.node.LiteralsIn p := by
  cases h <;> trivial

theorem Runs.literalsIn (hm : Agrees p merge) (has : ∀ n ∈ a :: restA, n.LiteralsIn p)
    (hbs : ∀ n ∈ b :: restB, n.LiteralsIn p) (h : Runs α merge chain around a b restA restB s taken t) :
    taken.node.LiteralsIn p := by
  cases h with
  | mk _ _ _ _ _ _ _ h => exact h.literalsIn hm (literalsIn_run has) (literalsIn_run hbs)

theorem Partners.literalsIn (hm : Agrees p merge) (has : ∀ n ∈ a :: restA, n.LiteralsIn p)
    (hbs : ∀ n ∈ b :: restB, n.LiteralsIn p) (h : Partners α merge chain around restA restB s a b taken t) :
    taken.node.LiteralsIn p := by
  have ha := has a List.mem_cons_self
  have hb := hbs b List.mem_cons_self
  cases h with
  | absorbRight _ _ h => exact h.literalsIn hm (literalsIn_block.mp ha) (literalsIn_run hbs)
  | absorbLeft _ _ h => exact h.literalsIn hm (literalsIn_block.mp hb) (literalsIn_run has)
  | merged h => exact hm.merged ha hb h

theorem Front.literalsIn (hm : Agrees p merge) (has : ∀ n ∈ a :: restA, n.LiteralsIn p)
    (hbs : ∀ n ∈ b :: restB, n.LiteralsIn p) (h : Front α merge chain around a b restA restB s taken t) :
    taken.node.LiteralsIn p := by
  cases h with
  | blocks h => exact (Returns.mergeBlocks h).literalsIn
  | runs _ h => exact (Returns.mergeRuns h).literalsIn hm has hbs
  | pair _ _ h =>
    obtain ⟨u, -, h⟩ := Returns.mergePair h
    exact h.literalsIn hm has hbs
  | left _ _ _ _ h => exact (Returns.unmatched h).literalsIn (has a List.mem_cons_self)
  | right _ _ _ _ h => exact (Returns.unmatched h).literalsIn (hbs b List.mem_cons_self)

theorem Returns.mergeSiblings_literalsIn (hm : Agrees p merge) {as bs ns : List Node} (has : AllLiteralsIn p as)
    (hbs : AllLiteralsIn p bs) (h : Returns (Merge.mergeSiblings α merge chain around as bs) s ns t) :
    AllLiteralsIn p ns := by
  rw [allLiteralsIn_iff] at has hbs ⊢
  rcases Returns.mergeSiblings h with h | ⟨u, -, h⟩
  · exact (Returns.mergeInline h).literalsIn
  · exact h.forall_nodes (fun hn h => (Returns.unmatched h).literalsIn hn)
      (fun has hbs hf => hf.literalsIn hm has hbs) has hbs

theorem undisputed_mergeFronts (hm : Agrees p merge)
    (has : ∀ n ∈ a :: restA, n.isElement = true → n.LiteralsIn p)
    (hbs : ∀ n ∈ b :: restB, n.isElement = true → n.LiteralsIn p)
    (hpair : Grade.isOne (Score.score false a b : α) = true ∨
      Score.isBestMatch a b (Score.score false a b : α) restA restB = true → a.LiteralsIn p ∧ b.LiteralsIn p) :
    FailsIn Undisputed (mergeFronts α merge chain around a b restA restB) s := by
  have run {n : Node} {rest : List Node} {k : Nat} (h : ∀ m ∈ n :: rest, m.isElement = true → m.LiteralsIn p) :
      ∀ m ∈ elementsIn (n :: rest.take k), m.LiteralsIn p := fun m hm =>
    h m (List.mem_of_mem_take (mem_elementsIn_take hm)) (List.mem_filter.mp hm).2
  apply failsIn_mergeFronts
  · intro u
    apply failsIn_mergeRuns
    intro _ _ _ v
    exact undisputed_buildLoop hm (run has) (run hbs)
  · intro hpartners u
    obtain ⟨ha, hb⟩ := hpair hpartners
    apply failsIn_mergePair
    · rintro r t v rfl _
      exact undisputed_absorb hm ha (run hbs)
    · rintro r t v rfl _
      exact undisputed_absorb hm hb (run has)
    · intro v
      exact hm.fails ha hb

theorem undisputed_mergeSiblings (hm : Agrees p merge) {as bs : List Node} (has : AllLiteralsIn p as)
    (hbs : AllLiteralsIn p bs) : FailsIn Undisputed (mergeSiblings α merge chain around as bs) s := by
  rw [allLiteralsIn_iff] at has hbs
  apply failsIn_mergeSiblings
  intro a restA b restB u ha hb
  exact undisputed_mergeFronts hm (fun n hn _ => has n (ha.subset hn)) (fun n hn _ => hbs n (hb.subset hn))
    fun _ => ⟨has a (ha.subset List.mem_cons_self), hbs b (hb.subset List.mem_cons_self)⟩

end Siblings

section Nodes

variable {a b : Node}

theorem Step.literalsIn (hm : Agrees p merge) {n : Node} (ha : a.LiteralsIn p) (hb : b.LiteralsIn p)
    (h : Step α merge chain around s a b n t) : n.LiteralsIn p := by
  cases h with
  | conditionals h =>
    obtain ⟨u, hu, -⟩ := returns_inScope.mp h
    exact literalsIn_block.mpr (hm.merged (literalsIn_block.mp ha) (literalsIn_block.mp hb) hu)
  | conditionalLeft h _ _ =>
    obtain ⟨u, hu, -⟩ := returns_inScope.mp h
    exact literalsIn_block.mpr (hm.merged (literalsIn_block.mp ha) hb hu)
  | conditionalRight h _ _ =>
    obtain ⟨u, hu, -⟩ := returns_inScope.mp h
    exact literalsIn_block.mpr (hm.merged ha (literalsIn_block.mp hb) hu)
  | loops h _ =>
    obtain ⟨u, hu, -⟩ := returns_inScope.mp h
    exact literalsIn_block.mpr (hm.merged (literalsIn_block.mp ha) (literalsIn_block.mp hb) hu)
  | absorbRight _ h => exact h.literalsIn hm (literalsIn_block.mp ha) (List.forall_mem_singleton.mpr hb)
  | absorbLeft _ h => exact h.literalsIn hm (literalsIn_block.mp hb) (List.forall_mem_singleton.mpr ha)
  | readRight _ _ => trivial
  | readLeft _ _ => trivial
  | elements _ _ _ hns => exact Returns.mergeSiblings_literalsIn hm ha hb hns
  | drawings _ _ _ _ _ _ => trivial
  | texts _ _ => trivial
  | kept _ _ => exact ha

theorem undisputed_mergeStep (hp : ∀ {v w}, p .doctype v → p .doctype w →
      Text.lower (Text.strip v) = Text.lower (Text.strip w)) (hm : Agrees p merge) (ha : a.LiteralsIn p)
    (hb : b.LiteralsIn p) : FailsIn Undisputed (mergeStep α merge chain around a b) s := by
  have htags (v w : String) {β : Type} {u : MergeState} : FailsIn Undisputed (throw (.tagsDiffer v w) : Merge β) u :=
    failsIn_throw.mpr fun _ _ he => nomatch he
  have hmismatch (m n : Node) {u : MergeState} : FailsIn Undisputed (mismatch m n) u := by
    have hthrow (v w : String) {u : MergeState} : FailsIn Undisputed (throw (.cannotMerge v w) : Merge Node) u :=
      failsIn_throw.mpr fun _ _ he => nomatch he
    simp [mismatch, Node.errsIn_describe, hthrow]
  unfold mergeStep
  split
  · simp [hm.fails (literalsIn_block.mp ha) (literalsIn_block.mp hb)]
  · have hbranch := literalsIn_block.mp ha
    exact failsIn_mergeConditional (fun _ => hm.fails hbranch hb) fun _ => hm.fails hb hbranch
  · have hbranch := literalsIn_block.mp hb
    exact failsIn_mergeConditional (fun _ => hm.fails hbranch ha) fun _ => hm.fails ha hbranch
  · simp [hm.fails (literalsIn_block.mp ha) (literalsIn_block.mp hb)]
  · exact undisputed_absorb hm ha (List.forall_mem_singleton.mpr hb)
  · exact undisputed_absorb hm hb (List.forall_mem_singleton.mpr ha)
  · simp
  · simp
  · next tag cs tag' ds =>
    have hchildren (u : MergeState) :
        FailsIn Undisputed (mergeSiblings α merge chain ⟨some tag, some tag'⟩ cs ds) u :=
      undisputed_mergeSiblings hm ha hb
    simp [mergeElements, failsIn_mergeDrawings, failsIn_mergeAttributes, hchildren, htags]
  · exact failsIn_mergeTexts _ _
  · simp [hmismatch]
  · simp [hmismatch]
  · simp [hmismatch]
  · simp
  · next v w =>
    have hsame : Text.lower (Text.strip v) = Text.lower (Text.strip w) := hp ha hb
    simp [hsame]
  · simp [hmismatch]
  · exact hmismatch _ _

theorem agrees_mergeNode (hp : ∀ {v w}, p .doctype v → p .doctype w →
      Text.lower (Text.strip v) = Text.lower (Text.strip w)) (fuel : Nat) : Agrees p (mergeNode α fuel) := by
  induction fuel with
  | zero =>
    constructor
    · intro _ _ _ _ _ _ _ _ _ h
      exact absurd h not_returns_throw
    · intro _ _ _ _ _ _ _
      exact failsIn_throw.mpr fun _ _ he => nomatch he
  | succ fuel ih =>
    constructor
    · intro _ _ _ _ _ _ _ ha hb h
      exact (Returns.mergeStep h).literalsIn ih ha hb
    · intro _ _ _ _ _ ha hb
      exact undisputed_mergeStep hp ih ha hb

end Nodes

end Stencil.Merge
