import Stencil.Proofs.Above
import Stencil.Proofs.Merge.Cases
import Stencil.Proofs.Merge.Step

/-!
Pages that are woven into a layout: read through it from the front, each node of the page meets its partner,
and the walk leaves the layout as it is.
-/

namespace Stencil.Merge

open Node

variable {α : Type} [Grade α] {chain : Scope} {around : Around} {side : Side} {s t : MergeState}

def Absorbs (α : Type) [Grade α] (n a : Node) : Prop :=
  ∀ fuel chain around s m t, Returns (mergeNode α fuel chain around n a) s m t → m = n

structure Partnered (α : Type) [Grade α] (n a : Node) : Prop where
  absorbs : Absorbs α n a
  kind : n.kind = a.kind
  loopless : ∀ r template, n ≠ .block .loop r template

inductive Idle : Node → Prop
  | literal {k : LiteralKind} {v : String} : (k = .text → Text.strip v = "") → Idle (.literal k v)
  | slot {k : SlotKind} {r : Reference} : Idle (.slot k r)
  | conditional {r : Reference} {template : Node} : Idle (.block .conditional r template)

theorem Unmatched.of_idle {enclosing : Option Tag} {n m : Node} {rest : List Node} {count : Nat}
    (hn : Idle n) (h : Unmatched chain side enclosing n rest s m count t) : m = n ∧ count = 1 := by
  cases h with
  | text hne _ =>
    cases hn with
    | literal hblank => exact absurd (hblank rfl) hne
  | markdown => cases hn
  | wrapped => cases hn
  | _ => exact ⟨rfl, rfl⟩

/-- In order, every node of a page has a partner in the layout. Partners that do not match in full have no
rival later in the layout, and between the partners the layout is idle. -/
inductive Weave (α : Type) [Grade α] : List Node → List Node → Prop
  | nil : Weave α [] []
  | pair {n a : Node} {ns as : List Node} : Partnered α n a →
    Grade.isOne (Score.score false n a : α) = true ∨ a.kind ∉ ns.map kind → Weave α ns as →
    Weave α (n :: ns) (a :: as)
  | skip {n : Node} {ns as : List Node} : Idle n → (∀ a ∈ as.head?, n.kind ≠ a.kind) →
    Weave α ns as → Weave α (n :: ns) as

namespace Weave

variable {ns as : List Node}

theorem length_le (h : Weave α ns as) : as.length ≤ ns.length := by
  induction h with
  | nil => exact Nat.le_refl _
  | pair _ _ _ ih => exact Nat.succ_le_succ ih
  | skip _ _ _ ih => exact Nat.le_succ_of_le ih

theorem exists_kind (h : Weave α ns as) {a : Node} (ha : a ∈ as) : ∃ n ∈ ns, n.kind = a.kind := by
  induction h with
  | nil => cases ha
  | pair hp _ _ ih =>
    rcases List.mem_cons.mp ha with rfl | ha
    · exact ⟨_, List.mem_cons_self .., hp.kind⟩
    · obtain ⟨n, hn, hk⟩ := ih ha
      exact ⟨n, List.mem_cons_of_mem _ hn, hk⟩
  | skip _ _ _ ih =>
    obtain ⟨n, hn, hk⟩ := ih ha
    exact ⟨n, List.mem_cons_of_mem _ hn, hk⟩

end Weave

theorem elementNames_nodup {ns : List Node} (h : (ns.map kind).Nodup) : (elementNames ns).Nodup := by
  refine (List.pairwise_map.mp h).filterMap _ fun n m hne x hx y hy hxy => hne ?_
  cases n <;> cases hx
  cases m <;> cases hy
  exact congrArg Kind.element hxy

theorem Weave.elementNames_sublist {ns as : List Node} (h : Weave α ns as) (has : LiteralList as) :
    (elementNames ns).Sublist (elementNames as) := by
  induction h with
  | nil => exact .refl _
  | @pair n a ns as hp _ _ ih =>
    have hrest := ih has.2
    have hkind := hp.kind
    cases n with
    | element tag cs =>
      cases a with
      | element tag' ds =>
        have hname : tag.name = tag'.name := Kind.element.inj hkind
        change (tag.name :: elementNames ns).Sublist (tag'.name :: elementNames as)
        rw [hname]
        exact hrest.cons_cons _
      | literal => cases hkind
      | _ => exact has.1.elim
    | _ => exact hrest.trans ((List.sublist_cons_self a as).filterMap _)
  | @skip n ns as hn _ _ ih =>
    cases hn <;> exact ih has

open Grade

variable [Counting α] [Positive α] [Ordered α]

theorem isBestMatch_of_kind {n a : Node} {restN restA : List Node} (ha : LiteralList (a :: restA))
    (hk : n.kind = a.kind) (hn : a.kind ∉ restN.map kind) (hrest : a.kind ∉ restA.map kind)
    (hfits : Counting.Fits α (n.size + a.size)) :
    Score.isBestMatch n a (Score.score false n a : α) restN restA = true := by
  have hpos : zero < (Score.score false n a : α) := Score.lt_score_of_kind n a ha.1 hk hfits
  apply Score.isBestMatch_of_zero hpos (Ordered.not_lt_zero hpos)
  · intro b hb
    have hne : n.kind ≠ b.kind := fun he => hrest (List.mem_map.mpr ⟨b, hb, he.symm.trans hk⟩)
    exact Score.score_of_kind_ne (literalList_iff.mp ha.2 b hb) n hne
  · intro m hm
    exact Score.score_of_kind_ne ha.1 m fun he => hn (List.mem_map.mpr ⟨m, hm, he⟩)

theorem leftIsExtra_of_kind {n a : Node} {restN restA : List Node} (ha : a.Literal)
    (hne : n.kind ≠ a.kind) (hwaits : ∃ m ∈ restN, m.kind = a.kind)
    (hlength : restA.length < restN.length) (hfits : Counting.Fits α (sizeOfList restN + a.size)) :
    leftIsExtra α n a (Score.score false n a) restN restA = true := by
  obtain ⟨m, hm, hk⟩ := hwaits
  have hright : Score.hasBetterPartner false a (Score.score false n a : α) restN = true := by
    rw [Score.hasBetterPartner, List.any_eq_true]
    refine ⟨m, hm, ?_⟩
    rw [if_neg Bool.false_ne_true, Score.score_of_kind_ne ha n hne, decide_eq_true_eq]
    have hsize := size_le_sizeOfList hm
    exact Score.lt_score_of_kind m a ha hk (Counting.fits_mono (by omega) hfits)
  unfold leftIsExtra
  dsimp only
  rw [hright]
  simp [hlength]

variable [Selective α] {fuel : Nat}

theorem Front.of_partnered {n a : Node} {restN restA : List Node} {taken : Taken}
    (hno : Unmarked around) (hnames : (elementNames (n :: restN)).Nodup)
    (ha : LiteralList (a :: restA)) (hkinds : ((a :: restA).map kind).Nodup) (hp : Partnered α n a)
    (hmatch : Grade.isOne (Score.score false n a : α) = true ∨ a.kind ∉ restN.map kind)
    (hfits : Counting.Fits α (n.size + a.size))
    (h : Front α (mergeNode α fuel) chain around n a restN restA s taken t) : taken = ⟨n, 1, 1⟩ := by
  have hpaired (hone : Grade.isOne (Score.score false n a : α) = false)
      (hbest : Score.isBestMatch n a (Score.score false n a : α) restN restA = false) : False := by
    rcases hmatch with hmatch | hmatch
    · simp [hmatch] at hone
    · rw [isBestMatch_of_kind ha hp.kind hmatch (List.nodup_cons.mp hkinds).1 hfits] at hbest
      cases hbest
  cases h with
  | blocks h => exact (not_returns_mergeBlocks hno.left h).elim
  | runs _ h => exact ((Returns.mergeRuns h).false_of_nodup hnames (elementNames_nodup hkinds)).elim
  | pair _ _ h =>
    obtain ⟨u, -, hpair⟩ := Returns.mergePair h
    cases hpair with
    | absorbRight _ _ _ => exact (hp.loopless _ _ rfl).elim
    | absorbLeft _ _ _ => exact ha.1.elim
    | merged h => rw [hp.absorbs _ _ _ _ _ _ h]
  | left _ hone hbest _ _ => exact (hpaired hone hbest).elim
  | right _ hone hbest _ _ => exact (hpaired hone hbest).elim

theorem Front.of_idle {n a : Node} {restN restA : List Node} {taken : Taken}
    (hno : Unmarked around) (hnames : (elementNames (n :: restN)).Nodup)
    (ha : LiteralList (a :: restA)) (hkinds : ((a :: restA).map kind).Nodup) (hn : Idle n)
    (hne : n.kind ≠ a.kind) (hw : Weave α restN (a :: restA))
    (hfits : Counting.Fits α (sizeOfList restN + a.size))
    (h : Front α (mergeNode α fuel) chain around n a restN restA s taken t) : taken = ⟨n, 1, 0⟩ := by
  -- the two are of different kinds, so they cannot be paired, and the partner that follows waits
  have hzero := Score.score_of_kind_ne (α := α) ha.1 n hne
  cases h with
  | blocks h => exact (not_returns_mergeBlocks hno.left h).elim
  | runs _ h => exact ((Returns.mergeRuns h).false_of_nodup hnames (elementNames_nodup hkinds)).elim
  | pair _ hmatch _ =>
    have hirrefl : ¬ (zero : α) < zero := Positive.lt_irrefl _
    simp [hzero, Ordered.isOne_zero, Score.isBestMatch, hirrefl] at hmatch
  | left _ _ _ _ h =>
    obtain ⟨rfl, rfl⟩ := (Returns.unmatched h).of_idle hn
    rfl
  | right _ _ _ hextra _ =>
    have hwaits := hw.exists_kind (List.mem_cons_self ..)
    rw [leftIsExtra_of_kind ha.1 hne hwaits hw.length_le hfits] at hextra
    cases hextra

theorem Weave.reads {ns as ms : List Node} (hw : Weave α ns as) (hno : Unmarked around)
    (has : LiteralList as) (hkinds : (as.map kind).Nodup)
    (hfits : Counting.Fits α (sizeOfList ns + sizeOfList as))
    (h : Walk α (mergeNode α fuel) chain around ns as s ms t) : ms = ns := by
  induction hw generalizing s ms with
  | nil =>
    cases h
    rfl
  | @pair n a ns as hp hmatch hw ih =>
    have hnames := (elementNames_nodup hkinds).sublist ((pair hp hmatch hw).elementNames_sublist has)
    rw [sizeOfList, sizeOfList] at hfits
    cases h with
    | both hf hrest =>
      cases hf.of_partnered hno hnames has hkinds hp hmatch (Counting.fits_mono (by omega) hfits)
      rw [ih has.2 (List.nodup_cons.mp hkinds).2 (Counting.fits_mono (by omega) hfits) hrest]
  | @skip n ns as hn hne hw ih =>
    have hnames := (elementNames_nodup hkinds).sublist ((skip hn hne hw).elementNames_sublist has)
    have hfitsRest : Counting.Fits α (sizeOfList ns + sizeOfList as) :=
      Counting.fits_mono (by rw [sizeOfList]; omega) hfits
    cases as with
    | nil =>
      cases h with
      | left hu hrest =>
        obtain ⟨rfl, rfl⟩ := (Returns.unmatched hu).of_idle hn
        rw [ih has hkinds hfitsRest hrest]
    | cons a as =>
      cases h with
      | both hf hrest =>
        have hfitsHead : Counting.Fits α (sizeOfList ns + a.size) :=
          Counting.fits_mono (by rw [sizeOfList]; omega) hfitsRest
        cases hf.of_idle hno hnames has hkinds hn (hne a rfl) hw hfitsHead
        rw [ih has hkinds hfitsRest hrest]

theorem Weave.reads_siblings {ns as ms : List Node} (hw : Weave α ns as) (hno : Unmarked around)
    (has : LiteralList as) (hkinds : (as.map kind).Nodup)
    (hfits : Counting.Fits α (sizeOfList ns + sizeOfList as))
    (h : Returns (mergeSiblings α (mergeNode α fuel) chain around ns as) s ms t) : ms = ns :=
  hw.reads hno has hkinds hfits (Returns.mergeSiblings_walk hno.inline h)

end Stencil.Merge
