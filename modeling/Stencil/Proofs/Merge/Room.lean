import Stencil.Proofs.Merge.Growth
import Stencil.Proofs.Node.Room

namespace Stencil.Merge

open Node

variable {α : Type} [Grade α] {merge : NodeMerger} {chain : Scope} {around : Around} {side : Side}
  {s t : MergeState} {width elements loops conditionals : Nat}

structure StaysBounded (width : Nat) (merge : NodeMerger) : Prop where
  merged : ∀ {chain around a b s n t elements loops conditionals},
    a.Bounded width elements loops conditionals → b.Bounded width elements loops conditionals →
    Returns (merge chain around a b) s n t → n.Bounded width elements loops conditionals

theorem bounded_slot (kind : SlotKind) (r : Reference) :
    (slot kind r).Bounded width elements loops conditionals := by
  simp [Bounded]

theorem bounded_content : content.Bounded width elements loops conditionals := by
  simp [Bounded]

theorem bounded_run {n : Node} {rest : List Node} {k : Nat}
    (h : ∀ m ∈ n :: rest, m.Bounded width elements width width) :
    ∀ m ∈ elementsIn (n :: rest.take k), m.Bounded width elements loops conditionals := by
  intro m hm
  have hmem := List.mem_of_mem_take (mem_elementsIn_take hm)
  exact (h m hmem).of_isElement (List.mem_filter.mp hm).2

theorem Returns.extract_bounded (hm : StaysBounded width merge) {c : Scope} {template : Node}
    {sources : List Node} {x : Node × List Fields}
    (hs : ∀ e ∈ sources, e.Bounded width elements loops conditionals)
    (ht : template.Bounded width elements loops conditionals)
    (h : Returns (extract Node.same (fun t e => merge c around t e) template sources) s x t) :
    x.1.Bounded width elements loops conditionals := by
  apply Returns.extract_template (Node.Bounded width elements loops conditionals) _ ht h
  intro template source s merged t ht hsource hmerge
  exact hm.merged ht (hs source hsource) hmerge

theorem Absorbed.bounded (hm : StaysBounded width merge) {r : Reference} {template n : Node}
    {sources : List Node}
    (ht : (block .loop r template).Bounded width elements loops conditionals)
    (hs : ∀ e ∈ sources, e.Bounded width elements (loops - 1) width)
    (h : Absorbed merge around side r template sources s n t) :
    n.Bounded width elements loops conditionals := by
  cases h with
  | mk hextract _ => exact ⟨ht.1, Returns.extract_bounded hm hs ht.2 hextract⟩

theorem bounded_sources {as bs : List Node} (has : ∀ a ∈ as, a.Bounded width elements 0 0)
    (hbs : ∀ b ∈ bs, b.Bounded width elements 0 0) (depth : Nat) (key : String) :
    (∀ e ∈ insertKeys depth key (as ++ bs), e.Bounded width elements 0 0) ∧
      ((insertKeys depth key (as ++ bs)).headD .content).Bounded width elements 0 0 := by
  have hsources : ∀ e ∈ insertKeys depth key (as ++ bs), e.Bounded width elements 0 0 := by
    rw [forall_mem_insertKeys]
    intro n hn
    exact ((List.mem_append.mp hn).elim (has n) (hbs n)).insertKey _ _
  exact ⟨hsources, forall_headD hsources bounded_content⟩

theorem Looped.bounded (hw : 0 < width) (hm : StaysBounded width merge) {as bs : List Node} {n : Node}
    (has : ∀ a ∈ as, a.Bounded width elements 0 0) (hbs : ∀ b ∈ bs, b.Bounded width elements 0 0)
    (h : Looped merge chain around as bs s n t) : n.Bounded width elements width width := by
  cases h with
  | @mk key template records _ _ sources _ _ _ _ _ _ _ _ _ he hextract _ _ =>
    subst he
    obtain ⟨hsources, hhead⟩ := bounded_sources has hbs chain.length key
    refine ⟨hw, Bounded.mono ?_ (Nat.le_refl _) (Nat.zero_le _) (Nat.zero_le _)⟩
    exact Returns.extract_bounded hm hsources hhead hextract

theorem Wrapped.bounded (hw : 0 < width) {n m : Node} (hn : n.Bounded width elements width (width - 1))
    (h : Wrapped chain side n s m t) : m.Bounded width elements width width := by
  cases h with
  | mk => exact ⟨hw, hn.insertKey _ _⟩

theorem Unmatched.bounded (hw : 0 < width) {enclosing : Option Tag} {n m : Node} {rest : List Node}
    {count : Nat} (hn : n.Bounded width elements width width)
    (h : Unmatched chain side enclosing n rest s m count t) : m.Bounded width elements width width := by
  cases h with
  | text _ _ => exact bounded_slot ..
  | markdown _ _ => exact bounded_slot ..
  | wrapped _ h => exact (Returns.wrapElement h).bounded hw (hn.of_isElement rfl)
  | _ => exact hn

theorem Inlined.bounded {as bs ns : List Node} (h : Inlined chain as bs s ns t) :
    ∀ n ∈ ns, n.Bounded width elements loops conditionals := by
  cases h <;> exact fun n hn => List.mem_singleton.mp hn ▸ bounded_slot ..

theorem Blocks.bounded {as bs : List Node} {taken : Taken} (h : Blocks chain as bs s taken t) :
    taken.node.Bounded width elements loops conditionals := by
  cases h <;> exact bounded_slot ..

section Siblings

variable {a b : Node} {restA restB : List Node} {taken : Taken}

theorem Runs.bounded (hw : 0 < width) (hm : StaysBounded width merge)
    (has : ∀ n ∈ a :: restA, n.Bounded width elements width width)
    (hbs : ∀ n ∈ b :: restB, n.Bounded width elements width width)
    (h : Runs α merge chain around a b restA restB s taken t) :
    taken.node.Bounded width elements width width := by
  cases h with
  | mk _ _ _ _ _ _ _ h => exact h.bounded hw hm (bounded_run has) (bounded_run hbs)

theorem Partners.bounded (hm : StaysBounded width merge)
    (has : ∀ n ∈ a :: restA, n.Bounded width elements width width)
    (hbs : ∀ n ∈ b :: restB, n.Bounded width elements width width)
    (h : Partners α merge chain around restA restB s a b taken t) :
    taken.node.Bounded width elements width width := by
  cases h with
  | absorbRight _ _ h => exact h.bounded hm (has _ (List.mem_cons_self ..)) (bounded_run hbs)
  | absorbLeft _ _ h => exact h.bounded hm (hbs _ (List.mem_cons_self ..)) (bounded_run has)
  | merged h => exact hm.merged (has a (List.mem_cons_self ..)) (hbs b (List.mem_cons_self ..)) h

theorem Front.bounded (hw : 0 < width) (hm : StaysBounded width merge)
    (has : ∀ n ∈ a :: restA, n.Bounded width elements width width)
    (hbs : ∀ n ∈ b :: restB, n.Bounded width elements width width)
    (h : Front α merge chain around a b restA restB s taken t) :
    taken.node.Bounded width elements width width := by
  cases h with
  | blocks h => exact (Returns.mergeBlocks h).bounded
  | runs _ h => exact (Returns.mergeRuns h).bounded hw hm has hbs
  | pair _ _ h =>
    obtain ⟨u, -, h⟩ := Returns.mergePair h
    exact h.bounded hm has hbs
  | left _ _ _ _ h => exact (Returns.unmatched h).bounded hw (has a (List.mem_cons_self ..))
  | right _ _ _ _ h => exact (Returns.unmatched h).bounded hw (hbs b (List.mem_cons_self ..))

end Siblings

theorem Returns.mergeSiblings_bounded (hw : 0 < width) (hm : StaysBounded width merge)
    {as bs ns : List Node} (has : BoundedAll width elements as) (hbs : BoundedAll width elements bs)
    (h : Returns (Merge.mergeSiblings α merge chain around as bs) s ns t) :
    BoundedAll width elements ns := by
  rw [boundedAll_iff] at has hbs ⊢
  rcases Returns.mergeSiblings h with h | ⟨u, -, h⟩
  · exact (Returns.mergeInline h).bounded
  · exact h.forall_nodes (fun hn h => (Returns.unmatched h).bounded hw hn)
      (fun has hbs hf => hf.bounded hw hm has hbs) has hbs

theorem Step.bounded (hw : 0 < width) (hm : StaysBounded width merge) {a b n : Node}
    (hno : (∀ r t, a ≠ block .conditional r t) ∨ ∀ r t, b ≠ block .conditional r t)
    (ha : a.Bounded width elements loops conditionals)
    (hb : b.Bounded width elements loops conditionals)
    (h : Step α merge chain around s a b n t) : n.Bounded width elements loops conditionals := by
  cases h with
  | conditionals _ => exact hno.elim (fun hno => absurd rfl (hno _ _)) fun hno => absurd rfl (hno _ _)
  | conditionalLeft h _ _ =>
    obtain ⟨u, hu, -⟩ := returns_inScope.mp h
    have hother := hno.resolve_left fun hno => hno _ _ rfl
    exact ⟨ha.1, hm.merged ha.2 (hb.of_not_conditional hother) hu⟩
  | conditionalRight h _ _ =>
    obtain ⟨u, hu, -⟩ := returns_inScope.mp h
    have hother := hno.resolve_right fun hno => hno _ _ rfl
    exact ⟨hb.1, hm.merged (ha.of_not_conditional hother) hb.2 hu⟩
  | loops h _ =>
    obtain ⟨u, hu, -⟩ := returns_inScope.mp h
    exact ⟨ha.1, hm.merged ha.2 hb.2 hu⟩
  | absorbRight helement h =>
    refine h.bounded hm ha fun e he => ?_
    rw [List.mem_singleton.mp he]
    exact hb.of_isElement helement
  | absorbLeft helement h =>
    refine h.bounded hm hb fun e he => ?_
    rw [List.mem_singleton.mp he]
    exact ha.of_isElement helement
  | readRight _ _ => exact bounded_slot ..
  | readLeft _ _ => exact bounded_slot ..
  | elements _ _ _ hns => exact ⟨ha.1, Returns.mergeSiblings_bounded hw hm ha.2 hb.2 hns⟩
  | drawings _ _ _ _ _ _ => exact bounded_slot ..
  | texts _ _ => exact bounded_slot ..
  | kept _ _ => exact ha

theorem Returns.mergeStep_bounded (hw : 0 < width) (hm : StaysBounded width merge) {a b n : Node}
    (ha : a.Bounded width elements loops conditionals)
    (hb : b.Bounded width elements loops conditionals)
    (h : Returns (Merge.mergeStep α merge chain around a b) s n t) :
    n.Bounded width elements loops conditionals := by
  -- two conditionals are opened together, so that both take up room
  by_cases hboth : (∃ r t, a = block .conditional r t) ∧ ∃ r t, b = block .conditional r t
  · obtain ⟨⟨r, template, rfl⟩, q, other, rfl⟩ := hboth
    simp only [Merge.mergeStep, returns_bind, returns_inScope, returns_pure] at h
    obtain ⟨⟨m, scopes⟩, u, ⟨v, hmerge, -, -⟩, rfl, -⟩ := h
    exact ⟨ha.1, hm.merged ha.2 hb.2 hmerge⟩
  · refine (Returns.mergeStep h).bounded hw hm ?_ ha hb
    exact (not_and_or.mp hboth).imp (fun hno r t he => hno ⟨r, t, he⟩) fun hno r t he => hno ⟨r, t, he⟩

theorem mergeNode_bounded (hw : 0 < width) (fuel : Nat) : StaysBounded width (mergeNode α fuel) := by
  induction fuel with
  | zero =>
    constructor
    intro _ _ _ _ _ _ _ _ _ _ _ _ h
    simp [mergeNode] at h
  | succ fuel ih =>
    constructor
    intro _ _ _ _ _ _ _ _ _ _ ha hb h
    exact Returns.mergeStep_bounded hw ih ha hb h

end Stencil.Merge
