import Stencil.Proofs.Above
import Stencil.Proofs.Merge.Growth
import Stencil.Proofs.Merge.Nested
import Stencil.Proofs.Node.Akin

/-!
Merges of nodes that are akin. Where every block wraps an element or the slot of a drawing, only nodes that are akin
are ever merged, a merge keeps the kind of its first node, and it has no failures but those that two nodes without
anything inside can have.
-/

namespace Stencil.Merge

open Node Grade

variable {α : Type} [Grade α] {merge : NodeMerger} {chain : Scope} {around : Around} {side : Side}
  {s t : MergeState} {Q : Node → Prop} {P : Failure → Prop}

/-- A property of trees under which every block wraps an element or the slot of a drawing. Elements other than drawings
have it if their children do, so what it says of attributes and drawings is left to it. -/
class Frame (Q : Node → Prop) : Prop where
  slot {kind : SlotKind} {r : Reference} : kind ≠ .html → Q (.slot kind r)
  block {kind : BlockKind} {r : Reference} {template : Node} :
    Q (.block kind r template) ↔ (∃ name, template.kind = .element name) ∧ Q template
  children {tag : Tag} {cs : List Node} : Q (.element tag cs) → ∀ n ∈ cs, Q n
  element {tag : Tag} {cs : List Node} : tag.name ≠ "svg" → (∀ n ∈ cs, Q n) → Q (.element tag cs)
  drawing {tag : Tag} {cs : List Node} {r : Reference} : Q (.element tag cs) → tag.name = "svg" → Q (.slot .html r)
  insertKey {n : Node} (depth : Nat) (key : String) : Q n → Q (n.insertKey depth key)

class Tolerates (P : Failure → Prop) (Q : Node → Prop) : Prop where
  doctypes {v w : String} : Text.lower (Text.strip v) ≠ Text.lower (Text.strip w) → P (.doctypesDiffer v w)
  slotLoop {r q : Reference} : Q (.slot .html r) →
    P (.cannotMerge ("html-variable: " ++ r.dotted) ("loop: " ++ q.dotted))
  loopSlot {r q : Reference} : Q (.slot .html r) →
    P (.cannotMerge ("loop: " ++ q.dotted) ("html-variable: " ++ r.dotted))
  drawing {tag : Tag} {cs : List Node} : Q (.element tag cs) → tag.name = "svg" →
    ErrsIn P (Markup.render [.element tag cs])
  unknown : Q .foreign → P (.noMergeRule Node.foreign.kindName)
  limit : P .outOfFuel

theorem Tolerates.noMergeRule [Tolerates P Q] {as bs : List Node} (has : ∀ n ∈ as, Q n) (hbs : ∀ n ∈ bs, Q n)
    (h : .foreign ∈ as ++ bs) : P (.noMergeRule Node.foreign.kindName) :=
  Tolerates.unknown ((List.mem_append.mp h).elim (has _) (hbs _))

structure Accepts (Q : Node → Prop) (P : Failure → Prop) (merge : NodeMerger) : Prop where
  fails : ∀ {chain around a b s}, Q a → Q b → Akin a.core b.core → FailsIn P (merge chain around a b) s
  merged : ∀ {chain around a b s n t}, Q a → Q b → Akin a.core b.core →
    Returns (merge chain around a b) s n t → Q n ∧ n.kind = a.kind

section Kinds

theorem akin_of_partner [Counting α] [Positive α] [Ordered α] {a b : Node} {rest rest' : List Node}
    (h : Grade.isOne (Score.score false a b : α) = true ∨
      Score.isBestMatch a b (Score.score false a b : α) rest rest' = true) : Akin a.core b.core := by
  have hsome : (Score.score false a b : α) ≠ zero := by
    intro hzero
    rw [hzero] at h
    rcases h with hone | hbest
    · rw [Ordered.isOne_zero] at hone
      cases hone
    · simp only [Score.isBestMatch, Bool.and_eq_true, decide_eq_true_eq] at hbest
      exact Positive.lt_irrefl _ hbest.1.1
  exact Score.akin_of_score hsome

theorem kind_of_reachesThreshold [Selective α] {a b : Node} (h : Score.reachesThreshold (α := α) a b = true) :
    a.kind = b.kind := by
  have hsome : (Score.score true a b : α) ≠ zero := by
    intro hzero
    rw [Score.reachesThreshold, hzero, decide_eq_true_eq] at h
    exact Selective.threshold h
  exact kind_of_akin (Score.akin_of_score hsome)

theorem kind_of_run [Selective α] {current first : Node} {rest : List Node} (hfirst : first.kind = current.kind) :
    ∀ n ∈ elementsIn (first :: rest.take (Score.repeats (α := α) current rest)), n.kind = current.kind := by
  intro n hn
  rcases List.mem_cons.mp (mem_elementsIn hn) with rfl | hrun
  · exact hfirst
  · have helement : n.isElement = true := (List.mem_filter.mp hn).2
    rcases Score.mem_take_repeats hrun with hblank | ⟨-, hlike⟩
    · cases n with
      | element => cases hblank
      | _ => cases helement
    · exact (kind_of_reachesThreshold hlike).symm

theorem kind_of_isElement {n : Node} (h : n.isElement = true) : ∃ name, n.kind = .element name := by
  cases n with
  | element t cs => exact ⟨t.name, rfl⟩
  | _ => cases h

theorem forms_of_kind {n : Node} {name : String} (h : n.kind = .element name) :
    (∃ t cs, n = element t cs) ∨ (∃ k r t, n = block k r t) ∨ ∃ r, n = slot .html r := by
  cases n with
  | element t cs => exact .inl ⟨t, cs, rfl⟩
  | block k r t => exact .inr (.inl ⟨k, r, t, rfl⟩)
  | slot k r =>
    cases k with
    | html => exact .inr (.inr ⟨r, rfl⟩)
    | _ => cases h
  | _ => cases h

theorem elementsIn_cons_ne_nil {n : Node} {rest : List Node} (h : n.isElement = true) :
    elementsIn (n :: rest) ≠ [] := by
  rw [elementsIn, List.filter_cons_of_pos h]
  exact List.cons_ne_nil _ _

theorem framed_of_run {n : Node} {rest : List Node} {k : Nat} (h : ∀ m ∈ n :: rest, Q m) :
    ∀ m ∈ elementsIn (n :: rest.take k), Q m :=
  fun _ hm => h _ (List.mem_of_mem_take (mem_elementsIn_take hm))

end Kinds

section Templates

variable {name : String} {template : Node} {sources : List Node}

def Templated (Q : Node → Prop) (name : String) (n : Node) : Prop :=
  Q n ∧ n.kind = .element name

theorem Accepts.templated (hm : Accepts Q P merge) {e n : Node} (ht : Templated Q name template)
    (he : Templated Q name e) (h : Returns (merge chain around template e) s n t) : Templated Q name n := by
  obtain ⟨hframed, hkind⟩ := hm.merged ht.1 he.1 (akin_of_kind ht.2 he.2) h
  exact ⟨hframed, hkind.trans ht.2⟩

theorem accepted_extract (hm : Accepts Q P merge) {c : Scope} (ht : Templated Q name template)
    (hs : ∀ e ∈ sources, Templated Q name e) :
    FailsIn P (extract Node.same (fun t e => merge c around t e) template sources) s :=
  failsIn_extract (Templated Q name)
    (fun ht he => hm.fails ht.1 (hs _ he).1 (akin_of_kind ht.2 (hs _ he).2))
    (fun ht he h => hm.templated ht (hs _ he) h) ht

theorem Returns.extract_templated (hm : Accepts Q P merge) {c : Scope} (ht : Templated Q name template)
    (hs : ∀ e ∈ sources, Templated Q name e) {x : Node × List Fields}
    (h : Returns (extract Node.same (fun t e => merge c around t e) template sources) s x t) :
    Templated Q name x.1 :=
  Returns.extract_template (Templated Q name) (fun ht he h => hm.templated ht (hs _ he) h) ht h

theorem templated_run [Selective α] {current n : Node} {rest : List Node} (hs : ∀ m ∈ n :: rest, Q m)
    (hn : n.kind = .element name) (hcurrent : current.kind = .element name) :
    ∀ m ∈ elementsIn (n :: rest.take (Score.repeats (α := α) current rest)), Templated Q name m := by
  intro m hm
  exact ⟨framed_of_run hs m hm, (kind_of_run (hn.trans hcurrent.symm) m hm).trans hcurrent⟩

theorem templated_runs [Selective α] {a b : Node} {restA restB : List Node} (has : ∀ n ∈ a :: restA, Q n)
    (hbs : ∀ n ∈ b :: restB, Q n) (helement : a.isElement = true)
    (hlike : Score.reachesThreshold (α := α) a b = true) :
    ∃ name, ∀ e ∈ elementsIn (a :: restA.take (Score.repeats (α := α) a restA)) ++
      elementsIn (b :: restB.take (Score.repeats (α := α) b restB)), Templated Q name e := by
  obtain ⟨name, hname⟩ := kind_of_isElement helement
  have hname' : b.kind = .element name := (kind_of_reachesThreshold hlike).symm.trans hname
  refine ⟨name, fun e he => ?_⟩
  rcases List.mem_append.mp he with he | he
  · exact templated_run has hname hname e he
  · exact templated_run hbs hname' hname' e he

variable [Frame Q]

theorem Templated.insertKey {n : Node} (h : Templated Q name n) (depth : Nat) (key : String) :
    Templated Q name (n.insertKey depth key) :=
  ⟨Frame.insertKey depth key h.1, (kind_insertKey depth key n).trans h.2⟩

theorem Accepts.of_block (hm : Accepts Q P merge) {k : BlockKind} {r : Reference} {other n : Node}
    (ht : Q (block k r template)) (ho : Q other) (hakin : Akin (block k r template).core other.core)
    (h : Returns (merge chain around template other) s n t) :
    Q (block k r n) ∧ (block k r n).kind = (block k r template).kind := by
  obtain ⟨⟨name, hname⟩, htemplate⟩ := Frame.block.mp ht
  obtain ⟨hframed, hkind⟩ := hm.merged htemplate ho hakin h
  exact ⟨Frame.block.mpr ⟨⟨name, hkind.trans hname⟩, hframed⟩, hkind⟩

theorem templated_sources {ns : List Node} (hsome : ns ≠ []) (hs : ∀ e ∈ ns, Templated Q name e) (depth : Nat)
    (key : String) : (∀ e ∈ insertKeys depth key ns, Templated Q name e) ∧
      Templated Q name ((insertKeys depth key ns).headD .content) := by
  have hsources : ∀ e ∈ insertKeys depth key ns, Templated Q name e := by
    rw [forall_mem_insertKeys]
    exact fun n hn => (hs n hn).insertKey depth key
  cases ns with
  | nil => exact absurd rfl hsome
  | cons n rest => exact ⟨hsources, hsources _ List.mem_cons_self⟩

theorem accepted_buildLoop [Failure.Mild P] (hm : Accepts Q P merge) {as bs : List Node} (hsome : as ++ bs ≠ [])
    (hs : ∀ e ∈ as ++ bs, Templated Q name e) : FailsIn P (buildLoop merge chain around as bs) s := by
  apply failsIn_buildLoop
  rintro key _ u rfl
  obtain ⟨hsources, hhead⟩ := templated_sources hsome hs chain.length key
  exact accepted_extract hm hhead hsources

theorem Looped.framed (hm : Accepts Q P merge) {as bs : List Node} {n : Node} (hsome : as ++ bs ≠ [])
    (hs : ∀ e ∈ as ++ bs, Templated Q name e) (h : Looped merge chain around as bs s n t) : Q n := by
  cases h with
  | @mk key template records _ _ sources _ _ _ _ _ _ _ _ _ he hextract _ _ =>
    subst he
    obtain ⟨hsources, hhead⟩ := templated_sources hsome hs chain.length key
    obtain ⟨hframed, hkind⟩ := Returns.extract_templated hm hhead hsources hextract
    exact Frame.block.mpr ⟨⟨name, hkind⟩, hframed⟩

theorem Absorbed.templated (hm : Accepts Q P merge) {r : Reference} {n : Node}
    (ht : Templated Q name template) (hs : ∀ e ∈ sources, Templated Q name e)
    (h : Absorbed merge around side r template sources s n t) : Templated Q name n := by
  cases h with
  | mk hextract _ =>
    obtain ⟨hframed, hkind⟩ := Returns.extract_templated hm ht hs hextract
    exact ⟨Frame.block.mpr ⟨⟨name, hkind⟩, hframed⟩, hkind⟩

theorem templated_of_block {k : BlockKind} {r : Reference} {n : Node} (ht : Q (block k r template)) (hn : Q n)
    (hakin : Akin template.core n.core) :
    ∃ name, Templated Q name template ∧ Templated Q name n := by
  obtain ⟨⟨name, hname⟩, htemplate⟩ := Frame.block.mp ht
  exact ⟨name, ⟨htemplate, hname⟩, hn, (kind_of_akin hakin).symm.trans hname⟩

end Templates

section Siblings

variable [Frame Q] {a b : Node} {restA restB : List Node} {taken : Taken}

theorem Wrapped.framed {n m : Node} (helement : n.isElement = true) (hn : Q n)
    (h : Wrapped chain side n s m t) : Q m := by
  obtain ⟨name, hname⟩ := kind_of_isElement helement
  cases h with
  | mk => exact Frame.block.mpr ⟨⟨name, (kind_insertKey _ _ n).trans hname⟩, Frame.insertKey _ _ hn⟩

theorem Unmatched.framed {enclosing : Option Tag} {n m : Node} {rest : List Node} {count : Nat}
    (hn : Q n) (h : Unmatched chain side enclosing n rest s m count t) : Q m := by
  cases h with
  | text _ _ => exact Frame.slot (by decide)
  | markdown _ _ => exact Frame.slot (by decide)
  | wrapped _ h => exact (Returns.wrapElement h).framed rfl hn
  | _ => exact hn

theorem Inlined.framed {as bs ns : List Node} (h : Inlined chain as bs s ns t) : ∀ n ∈ ns, Q n := by
  cases h <;> exact fun n hn => List.mem_singleton.mp hn ▸ Frame.slot (by decide)

theorem Blocks.framed {as bs : List Node} (h : Blocks chain as bs s taken t) : Q taken.node := by
  cases h <;> exact Frame.slot (by decide)

variable [Selective α]

theorem Runs.framed (hm : Accepts Q P merge) (has : ∀ n ∈ a :: restA, Q n) (hbs : ∀ n ∈ b :: restB, Q n)
    (h : Runs α merge chain around a b restA restB s taken t) : Q taken.node := by
  cases h with
  | mk _ hlike helement _ hrunA hrunB _ h =>
    subst hrunA hrunB
    obtain ⟨name, hsources⟩ := templated_runs has hbs helement hlike
    exact h.framed hm (List.append_ne_nil_of_left_ne_nil (elementsIn_cons_ne_nil helement) _) hsources

theorem Partners.framed (hm : Accepts Q P merge) (has : ∀ n ∈ a :: restA, Q n) (hbs : ∀ n ∈ b :: restB, Q n)
    (hakin : Akin a.core b.core)
    (h : Partners α merge chain around restA restB s a b taken t) : Q taken.node := by
  have ha := has a List.mem_cons_self
  have hb := hbs b List.mem_cons_self
  cases h with
  | absorbRight _ hrun h =>
    subst hrun
    obtain ⟨name, htemplate, hb⟩ := templated_of_block ha hb hakin
    exact (h.templated hm htemplate (templated_run hbs hb.2 htemplate.2)).1
  | absorbLeft _ hrun h =>
    subst hrun
    obtain ⟨name, htemplate, ha⟩ := templated_of_block hb ha hakin.symm
    exact (h.templated hm htemplate (templated_run has ha.2 htemplate.2)).1
  | merged h => exact (hm.merged ha hb hakin h).1

variable [Counting α] [Positive α] [Ordered α]

theorem Front.framed (hm : Accepts Q P merge) (has : ∀ n ∈ a :: restA, Q n) (hbs : ∀ n ∈ b :: restB, Q n)
    (h : Front α merge chain around a b restA restB s taken t) : Q taken.node := by
  cases h with
  | blocks h => exact (Returns.mergeBlocks h).framed
  | runs _ h => exact (Returns.mergeRuns h).framed hm has hbs
  | pair _ hpartner h =>
    obtain ⟨u, -, h⟩ := Returns.mergePair h
    exact h.framed hm has hbs (akin_of_partner hpartner)
  | left _ _ _ _ h => exact (Returns.unmatched h).framed (has a List.mem_cons_self)
  | right _ _ _ _ h => exact (Returns.unmatched h).framed (hbs b List.mem_cons_self)

theorem Returns.mergeSiblings_framed (hm : Accepts Q P merge) {as bs ns : List Node} (has : ∀ n ∈ as, Q n)
    (hbs : ∀ n ∈ bs, Q n) (h : Returns (Merge.mergeSiblings α merge chain around as bs) s ns t) :
    ∀ n ∈ ns, Q n := by
  rcases Returns.mergeSiblings h with h | ⟨u, -, h⟩
  · exact (Returns.mergeInline h).framed
  · exact h.forall_nodes (fun hn h => (Returns.unmatched h).framed hn) (fun has hbs hf => hf.framed hm has hbs) has hbs

variable [Failure.Mild P] [Tolerates P Q]

theorem accepted_mergeFronts (hm : Accepts Q P merge) (has : ∀ n ∈ a :: restA, Q n) (hbs : ∀ n ∈ b :: restB, Q n) :
    FailsIn P (mergeFronts α merge chain around a b restA restB) s := by
  have ha := has a List.mem_cons_self
  have hb := hbs b List.mem_cons_self
  have hknown : .foreign ∈ [a] ++ [b] → P (.noMergeRule Node.foreign.kindName) :=
    Tolerates.noMergeRule (List.forall_mem_singleton.mpr ha) (List.forall_mem_singleton.mpr hb)
  apply failsIn_mergeFronts_of hknown
  · intro u
    apply failsIn_mergeRuns
    intro helement _ hlike v
    obtain ⟨name, hsources⟩ := templated_runs has hbs helement hlike
    exact accepted_buildLoop hm (List.append_ne_nil_of_left_ne_nil (elementsIn_cons_ne_nil helement) _) hsources
  · intro hpartner u
    have hakin : Akin a.core b.core := akin_of_partner hpartner
    apply failsIn_mergePair
    · rintro r template v rfl _
      obtain ⟨name, htemplate, hb⟩ := templated_of_block ha hb hakin
      exact failsIn_absorb (accepted_extract hm htemplate (templated_run hbs hb.2 htemplate.2))
    · rintro r template v rfl _
      obtain ⟨name, htemplate, ha⟩ := templated_of_block hb ha hakin.symm
      exact failsIn_absorb (accepted_extract hm htemplate (templated_run has ha.2 htemplate.2))
    · intro v
      exact hm.fails ha hb hakin

theorem accepted_mergeSiblings (hm : Accepts Q P merge) {as bs : List Node} (has : ∀ n ∈ as, Q n)
    (hbs : ∀ n ∈ bs, Q n) : FailsIn P (mergeSiblings α merge chain around as bs) s := by
  have hknown : .foreign ∈ as ++ bs → P (.noMergeRule Node.foreign.kindName) := Tolerates.noMergeRule has hbs
  apply failsIn_mergeSiblings_of hknown
  intro a restA b restB u ha hb
  exact accepted_mergeFronts hm (fun n hn => has n (ha.subset hn)) fun n hn => hbs n (hb.subset hn)

end Siblings

section Nodes

variable [Frame Q] [Counting α] [Positive α] [Ordered α] [Selective α] {a b : Node}

theorem Step.framed (hm : Accepts Q P merge) {n : Node} (ha : Q a) (hb : Q b) (hakin : Akin a.core b.core)
    (h : Step α merge chain around s a b n t) : Q n ∧ n.kind = a.kind := by
  cases h with
  | conditionals h =>
    obtain ⟨u, hu, -⟩ := returns_inScope.mp h
    exact hm.of_block ha (Frame.block.mp hb).2 hakin hu
  | conditionalLeft h _ _ =>
    obtain ⟨u, hu, -⟩ := returns_inScope.mp h
    exact hm.of_block ha hb hakin hu
  | conditionalRight h _ _ =>
    obtain ⟨u, hu, -⟩ := returns_inScope.mp h
    obtain ⟨⟨name, hname⟩, htemplate⟩ := Frame.block.mp hb
    obtain ⟨hframed, hkind⟩ := hm.merged ha htemplate hakin hu
    exact ⟨Frame.block.mpr ⟨⟨name, (hkind.trans (kind_of_akin hakin)).trans hname⟩, hframed⟩, hkind⟩
  | loops h _ =>
    obtain ⟨u, hu, -⟩ := returns_inScope.mp h
    exact hm.of_block ha (Frame.block.mp hb).2 hakin hu
  | absorbRight _ h =>
    obtain ⟨name, htemplate, hb⟩ := templated_of_block ha hb hakin
    obtain ⟨hframed, hkind⟩ := h.templated hm htemplate (List.forall_mem_singleton.mpr hb)
    exact ⟨hframed, hkind.trans htemplate.2.symm⟩
  | absorbLeft _ h =>
    obtain ⟨name, htemplate, ha⟩ := templated_of_block hb ha hakin.symm
    obtain ⟨hframed, hkind⟩ := h.templated hm htemplate (List.forall_mem_singleton.mpr ha)
    exact ⟨hframed, hkind.trans ha.2.symm⟩
  | readRight _ _ => exact ⟨ha, rfl⟩
  | readLeft _ _ => exact ⟨hb, (kind_of_akin hakin).symm⟩
  | elements _ hname _ hns =>
    have hchildren := Returns.mergeSiblings_framed hm (Frame.children ha) (Frame.children hb) hns
    exact ⟨Frame.element hname hchildren, rfl⟩
  | drawings hsvg _ _ _ _ _ => exact ⟨Frame.drawing ha hsvg, congrArg Kind.element hsvg.symm⟩
  | texts _ _ => exact ⟨Frame.slot (by decide), rfl⟩
  | kept _ _ => exact ⟨ha, rfl⟩

variable [Failure.Mild P] [Tolerates P Q]

theorem accepted_leaves (hm : Accepts Q P merge) (ha : Q a) (hb : Q b) (hakin : Akin a b) :
    FailsIn P (mergeStep α merge chain around a b) s := by
  cases a with
  | element s cs =>
    cases b with
    | element t ds =>
      have hname : s.name = t.name := hakin
      have hchildren (u : MergeState) : FailsIn P (mergeSiblings α merge chain ⟨some s, some t⟩ cs ds) u :=
        accepted_mergeSiblings hm (Frame.children ha) (Frame.children hb)
      by_cases hsvg : t.name = "svg"
      · have hmarkup := Tolerates.drawing (P := P) ha (hname.trans hsvg)
        have hmarkup' := Tolerates.drawing (P := P) hb hsvg
        simp [mergeStep, mergeElements, hname, hsvg, failsIn_mergeDrawings_of, hmarkup, hmarkup']
      · simp [mergeStep, mergeElements, hname, hsvg, failsIn_mergeAttributes, hchildren]
    | slot l r =>
      obtain ⟨rfl, hsvg⟩ := hakin
      simp [mergeStep, markup, Tolerates.drawing (P := P) ha hsvg]
    | _ => exact hakin.elim
  | slot k r =>
    cases b with
    | element t ds =>
      obtain ⟨rfl, hsvg⟩ := hakin
      simp [mergeStep, markup, Tolerates.drawing (P := P) hb hsvg]
    | slot l q =>
      have hkind : k = l := hakin
      simp [mergeStep, hkind]
    | literal l w =>
      obtain ⟨rfl, hk⟩ := hakin
      simp [mergeStep, hk]
    | _ => exact hakin.elim
  | literal k v =>
    cases b with
    | literal l w =>
      obtain rfl : k = l := hakin
      cases k with
      | text => exact failsIn_mergeTexts v w
      | doctype =>
        simp only [mergeStep, failsIn_ite, failsIn_pure, implies_true, true_and, failsIn_throw]
        intro hdiffer
        exact Tolerates.doctypes Q (by simpa using hdiffer)
      | _ => simp [mergeStep]
    | slot l r =>
      obtain ⟨rfl, hl⟩ := hakin
      simp [mergeStep, hl]
    | _ => exact hakin.elim
  | content =>
    cases b with
    | content => simp [mergeStep]
    | _ => exact hakin.elim
  | _ => exact hakin.elim

theorem accepted_mergeStep (hm : Accepts Q P merge) (ha : Q a) (hb : Q b) (hakin : Akin a.core b.core) :
    FailsIn P (mergeStep α merge chain around a b) s := by
  by_cases hleaves : Akin a b
  · exact accepted_leaves hm ha hb hleaves
  unfold mergeStep
  split
  · simp only [failsIn_bind, failsIn_inScope, failsIn_pure, implies_true, and_true]
    exact hm.fails (Frame.block.mp ha).2 (Frame.block.mp hb).2 hakin
  · have htemplate := (Frame.block.mp ha).2
    exact failsIn_mergeConditional (fun _ => hm.fails htemplate hb hakin) fun _ => hm.fails hb htemplate hakin.symm
  · have htemplate := (Frame.block.mp hb).2
    exact failsIn_mergeConditional (fun _ => hm.fails htemplate ha hakin.symm) fun _ => hm.fails ha htemplate hakin
  · simp only [failsIn_bind, failsIn_inScope, failsIn_ite, failsIn_reshape, failsIn_pure, implies_true, and_true]
    exact hm.fails (Frame.block.mp ha).2 (Frame.block.mp hb).2 hakin
  · obtain ⟨name, htemplate, hb⟩ := templated_of_block ha hb hakin
    exact failsIn_absorb (accepted_extract hm htemplate (List.forall_mem_singleton.mpr hb))
  · obtain ⟨name, htemplate, ha⟩ := templated_of_block hb ha hakin.symm
    exact failsIn_absorb (accepted_extract hm htemplate (List.forall_mem_singleton.mpr ha))
  case h_17 hconditional hconditional' _ hloops hitems hitems' _ _ _ _ _ _ _ _ _ _ =>
    -- of the pairs with a block, only a loop and the slot of a drawing have no rule
    by_cases hblock : ∃ k r t, a = block k r t
    · obtain ⟨_ | _, r, template, rfl⟩ := hblock
      · exact (hconditional _ _ rfl).elim
      · obtain ⟨name, -, hb⟩ := templated_of_block ha hb hakin
        rcases forms_of_kind hb.2 with ⟨t, ds, rfl⟩ | ⟨_ | _, q, other, rfl⟩ | ⟨q, rfl⟩
        · exact (hitems _ _ _ _ rfl rfl).elim
        · exact (hconditional' _ _ rfl).elim
        · exact (hloops _ _ _ _ rfl rfl).elim
        · exact errsIn_error.mpr (Tolerates.loopSlot hb.1)
    · by_cases hblock' : ∃ k r t, b = block k r t
      · obtain ⟨_ | _, r, template, rfl⟩ := hblock'
        · exact (hconditional' _ _ rfl).elim
        · obtain ⟨name, -, ha⟩ := templated_of_block hb ha hakin.symm
          rcases forms_of_kind ha.2 with ⟨t, ds, rfl⟩ | ⟨k, q, other, rfl⟩ | ⟨q, rfl⟩
          · exact (hitems' _ _ _ _ rfl rfl).elim
          · exact absurd ⟨k, q, other, rfl⟩ hblock
          · exact errsIn_error.mpr (Tolerates.slotLoop ha.1)
      · rw [core_of_not_block hblock, core_of_not_block hblock'] at hakin
        exact absurd hakin hleaves
  all_goals exact absurd hakin hleaves

theorem accepts_mergeNode (fuel : Nat) : Accepts Q P (mergeNode α fuel) := by
  induction fuel with
  | zero =>
    constructor
    · intro _ _ _ _ _ _ _ _
      exact failsIn_throw.mpr (Tolerates.limit Q)
    · intro _ _ _ _ _ _ _ _ _ _ h
      simp [mergeNode] at h
  | succ fuel ih =>
    constructor
    · intro _ _ _ _ _ ha hb hakin
      exact accepted_mergeStep ih ha hb hakin
    · intro _ _ _ _ _ _ _ ha hb hakin h
      exact (Returns.mergeStep h).framed ih ha hb hakin

end Nodes

end Stencil.Merge
