import Stencil.Merge.Basic
import Stencil.Proofs.FullScore
import Stencil.Proofs.Merge.Pairing
import Stencil.Proofs.Rendering

namespace Stencil

namespace Node

theorem not_foreign_of_alike {s t : Tag} (h : s.Alike t) :
    s.attrs.contains .foreign = false ∧ t.attrs.contains .foreign = false := by
  rw [← Bool.not_eq_true, ← Bool.not_eq_true, List.contains_iff_mem, List.contains_iff_mem]
  constructor
  · intro hmem
    obtain ⟨b, -, hab⟩ := h.found _ hmem
    exact hab.elim
  · intro hmem
    obtain ⟨a, -, hab⟩ := h.known _ hmem
    cases a <;> exact hab.elim

mutual
theorem Alike.hasForeign : (a b : Node) → Alike a b → a.hasForeign = false ∧ b.hasForeign = false
  | element s cs, b, h => by
    cases b with
    | element t ds =>
      have hattrs := not_foreign_of_alike h.1
      have hchildren := AlikeList.anyForeign cs ds h.2
      rw [Node.hasForeign, Node.hasForeign, hattrs.1, hattrs.2, hchildren.1, hchildren.2]
      exact ⟨rfl, rfl⟩
    | _ => exact h.elim
  | block k r t, b, h => by
    cases b with
    | block l q u => exact Alike.hasForeign t u h.2.2
    | _ => exact h.elim
  | literal .., b, h => by cases b <;> first | exact ⟨rfl, rfl⟩ | exact h.elim
  | slot .., b, h => by cases b <;> first | exact ⟨rfl, rfl⟩ | exact h.elim
  | content, b, h => by cases b <;> first | exact ⟨rfl, rfl⟩ | exact h.elim
  | foreign, _, h => h.elim

theorem AlikeList.anyForeign : (as bs : List Node) → AlikeList as bs →
    anyForeign as = false ∧ anyForeign bs = false
  | [], bs, h => by
    cases bs with
    | nil => exact ⟨rfl, rfl⟩
    | cons => exact h.elim
  | a :: as, bs, h => by
    cases bs with
    | nil => exact h.elim
    | cons b bs =>
      have hfirst := Alike.hasForeign a b h.1
      have hrest := AlikeList.anyForeign as bs h.2
      rw [Node.anyForeign, Node.anyForeign, hfirst.1, hfirst.2, hrest.1, hrest.2]
      exact ⟨rfl, rfl⟩
end

end Node

namespace Merge

open Node Grade Counting

variable (α : Type) [Grade α]

def Unlooped (a b : Node) (restA restB : List Node) : Prop :=
  ∀ tag ∈ a.tag?, loopExcluded.contains tag.name = false →
    Score.repeats (α := α) a restA = 0 ∧ Score.repeats (α := α) b restB = 0 ∨
      sameList (elementsIn (a :: restA.take (Score.repeats (α := α) a restA)))
        (elementsIn (b :: restB.take (Score.repeats (α := α) b restB))) = true

def SameBlocks (enclosing : Option Tag) (as bs : List Node) : Prop :=
  Markdown.allowsBlocks enclosing = true → (as.head?.map Markdown.isBlock).getD false = true →
    Markdown.ofNodes (as.take (Markdown.run as)) = Markdown.ofNodes (bs.take (Markdown.run bs))

def SameInline (enclosing : Option Tag) (as bs : List Node) : Prop :=
  Markdown.allowsInline enclosing = true → Markdown.isInlineTree as = true →
    Markdown.containsElement as = true → Markdown.ofNodes as = Markdown.ofNodes bs

mutual
def Settled : Node → Node → Prop
  | .element s cs, .element t ds =>
    if s.name = "svg" then
      ∃ x, Markup.render [.element s cs] = .ok x ∧ Markup.render [.element t ds] = .ok x
    else SameInline (some s) cs ds ∧ SettledList (some s) cs ds
  | .block _ _ t, .block _ _ u => Settled t u
  | _, _ => True

def SettledList (enclosing : Option Tag) : List Node → List Node → Prop
  | a :: as, b :: bs => Settled a b ∧ Unlooped α a b as bs ∧ SameBlocks enclosing (a :: as) (b :: bs) ∧
      SettledList enclosing as bs
  | _, _ => True
end

variable {α} {chain : Scope} {around : Around} {s : MergeState}

theorem returns_markdown {ns : List Node} {x : String} (h : Markdown.ofNodes ns = .ok x) :
    Returns (markdown ns) s x s :=
  returns_ofExcept.mpr ⟨h, rfl⟩

theorem singleSlot?_of_alike (kind : SlotKind) {as bs : List Node} (h : AlikeList as bs) :
    singleSlot? kind as = singleSlot? kind bs := by
  have hfilter := h.filter (p := fun n => !n.isBlankText) fun a b hab => by rw [hab.isBlankText]
  unfold singleSlot?
  generalize as.filter (fun n => !n.isBlankText) = as' at hfilter ⊢
  generalize bs.filter (fun n => !n.isBlankText) = bs' at hfilter ⊢
  rcases as' with _ | ⟨a, _ | ⟨c, as'⟩⟩ <;> rcases bs' with _ | ⟨b, _ | ⟨d, bs'⟩⟩
  case cons.nil.cons.nil =>
    have hab := hfilter.1
    cases a <;> cases b
    case slot.slot =>
      obtain ⟨rfl, rfl⟩ := hab
      rfl
    all_goals first | rfl | exact hab.elim
  case cons.cons.cons.cons => cases a <;> cases b <;> rfl
  all_goals first | rfl | exact hfilter.elim | exact hfilter.2.elim

theorem returns_mergeInline {as bs : List Node} (h : AlikeList as bs) (hsame : SameInline around.left as bs) :
    Returns (mergeInline? chain around as bs) s none s := by
  have hinline := singleSlot?_of_alike .inlineMarkdown h
  have hplain := singleSlot?_of_alike .plain h
  have htree := Markdown.isInlineTree_of_alike as bs h
  have hcontains : Markdown.containsElement as = Markdown.containsElement bs :=
    h.any_eq fun a b hab => hab.isElement
  unfold mergeInline?
  rw [hinline, hplain, htree, hcontains]
  split
  · exact returns_pure.mpr ⟨rfl, rfl⟩
  · next hallows =>
    cases singleSlot? .inlineMarkdown bs with
    | some r => exact returns_pure.mpr ⟨rfl, rfl⟩
    | none =>
      cases singleSlot? .plain bs with
      | some r => exact returns_pure.mpr ⟨rfl, rfl⟩
      | none =>
        dsimp only
        split
        · exact returns_pure.mpr ⟨rfl, rfl⟩
        · next hneeded =>
          simp only [Option.isSome_none, Option.isNone_none, Bool.and_self, Bool.true_and, Bool.false_or,
            Bool.or_self, Bool.or_eq_true, Bool.not_eq_true', not_or, Bool.not_eq_false] at hallows hneeded
          obtain ⟨hinlines, helement⟩ := hneeded
          obtain ⟨x, hx⟩ := Markdown.ofNodes_ok (Markdown.static_of_isInlineTree bs hinlines)
          have hy : Markdown.ofNodes as = .ok x :=
            (hsame hallows (htree.trans hinlines) (hcontains.trans helement)).trans hx
          simp only [Option.isSome_none, Bool.false_eq_true, if_false, returns_bind]
          exact ⟨x, s, returns_markdown hy, x, s, returns_markdown hx, by simp⟩

theorem returns_mergeBlocks {as bs : List Node} (h : AlikeList as bs) (hsame : SameBlocks around.left as bs) :
    Returns (mergeBlocks? chain around as bs) s none s := by
  unfold mergeBlocks?
  split
  · exact returns_pure.mpr ⟨rfl, rfl⟩
  · next hallows =>
    have hblock : (bs.head?.map Markdown.isBlock).getD false = (as.head?.map Markdown.isBlock).getD false := by
      cases as <;> cases bs <;> first | rfl | exact h.elim | skip
      exact (Markdown.isBlock_of_alike _ _ h.1).symm
    dsimp only
    rw [hblock]
    split
    · next r hr =>
      rw [hr]
      exact returns_pure.mpr ⟨rfl, rfl⟩
    · next r hr _ =>
      have hno : (as.head?.map Markdown.isBlock).getD false = false := by
        rw [← hblock, hr]
        rfl
      rw [hno]
      exact returns_pure.mpr ⟨rfl, rfl⟩
    · split
      · next hhead =>
        rw [Bool.and_self] at hhead
        obtain ⟨x, hx⟩ := Markdown.ofNodes_ok (Markdown.static_of_run bs)
        have hy : Markdown.ofNodes (as.take (Markdown.run as)) = .ok x :=
          (hsame (by simpa using hallows) hhead).trans hx
        simp only [returns_bind]
        refine ⟨x, s, returns_markdown hy, x, s, returns_markdown hx, ?_⟩
        simp
      · exact returns_pure.mpr ⟨rfl, rfl⟩

theorem returns_mergeRuns {merge : NodeMerger} {a b : Node} {restA restB : List Node}
    (h : AlikeList (a :: restA) (b :: restB)) (hruns : Unlooped α a b restA restB) :
    Returns (mergeRuns? α merge chain around a b restA restB) s none s := by
  have hforeign := AlikeList.anyForeign _ _ h
  rw [anyForeign, anyForeign, Bool.or_eq_false_iff, Bool.or_eq_false_iff] at hforeign
  unfold mergeRuns?
  split
  · next tag cs tag' ds =>
    split
    · exact returns_pure.mpr ⟨rfl, rfl⟩
    · next hexcluded =>
      rw [returns_bind]
      refine ⟨_, s, returns_complaints hforeign.1.1 hforeign.2.1, ?_⟩
      split
      · exact returns_pure.mpr ⟨rfl, rfl⟩
      · simp only [returns_bind]
        refine ⟨_, s, returns_repeatComplaints hforeign.1.1 hforeign.1.2, _, s,
          returns_repeatComplaints hforeign.2.1 hforeign.2.2, ?_⟩
        rw [Bool.or_eq_true, not_or, Bool.not_eq_true, Bool.not_eq_true] at hexcluded
        rcases hruns tag rfl hexcluded.1 with ⟨hrunA, hrunB⟩ | hsame
        · rw [hrunA, hrunB]
          exact returns_pure.mpr ⟨rfl, rfl⟩
        · rw [hsame]
          split <;> exact returns_pure.mpr ⟨rfl, rfl⟩
  · exact returns_pure.mpr ⟨rfl, rfl⟩

theorem returns_pairAttribute {owner : Tag} {a b : Attribute} (h : a.Alike b) :
    Returns (pairAttribute chain owner a b) s a s := by
  cases a <;> cases b
  case fixed.fixed n v m w =>
    have hsame : sameAttributeValue n v w = true := h
    rw [pairAttribute, hsame]
    exact returns_pure.mpr ⟨rfl, rfl⟩
  all_goals first | exact h.elim | exact returns_pure.mpr ⟨rfl, rfl⟩

theorem returns_leftAttributes {owner other : Tag} {attrs : List Attribute}
    (h : ∀ a ∈ attrs, ∃ b, other.attr? a.name = some b ∧ a.Alike b) :
    Returns (leftAttributes chain owner other attrs) s attrs s := by
  induction attrs with
  | nil => exact returns_pure.mpr ⟨rfl, rfl⟩
  | cons a attrs ih =>
    obtain ⟨b, hb, hab⟩ := h a List.mem_cons_self
    rw [leftAttributes, hb, returns_bind]
    refine ⟨a, s, returns_pairAttribute hab, ?_⟩
    rw [returns_bind]
    exact ⟨attrs, s, ih fun c hc => h c (List.mem_cons_of_mem _ hc), returns_pure.mpr ⟨rfl, rfl⟩⟩

theorem returns_rightAttributes {owner other : Tag} {attrs : List Attribute}
    (h : ∀ b ∈ attrs, ∃ a, owner.attr? b.name = some a) :
    Returns (rightAttributes chain owner other attrs) s [] s := by
  induction attrs with
  | nil => exact returns_pure.mpr ⟨rfl, rfl⟩
  | cons b attrs ih =>
    obtain ⟨a, ha⟩ := h b List.mem_cons_self
    rw [rightAttributes, ha]
    exact ih fun c hc => h c (List.mem_cons_of_mem _ hc)

theorem returns_mergeAttributes {owner other : Tag} (h : owner.Alike other) :
    Returns (mergeAttributes chain owner other) s owner.attrs s := by
  have hright : ∀ b ∈ other.attrs, ∃ a, owner.attr? b.name = some a := fun b hb =>
    (h.known b hb).imp fun _ ha => ha.1
  rw [mergeAttributes, returns_bind]
  refine ⟨owner.attrs, s, returns_leftAttributes h.found, ?_⟩
  rw [returns_bind]
  exact ⟨[], s, returns_rightAttributes hright, returns_pure.mpr ⟨(List.append_nil _).symm, rfl⟩⟩

variable [Counting α]

theorem returns_mergeFronts {merge : NodeMerger} {a b : Node} {restA restB : List Node}
    (h : AlikeList (a :: restA) (b :: restB)) (hruns : Unlooped α a b restA restB)
    (hblocks : SameBlocks around.left (a :: restA) (b :: restB)) (hfits : Counting.Fits α a.size)
    (hmerge : Returns (merge chain around a b) s a s) :
    Returns (mergeFronts α merge chain around a b restA restB) s ⟨a, 1, 1⟩ s := by
  have hone : isOne (Score.score false a b : α) = true := isOne (Score.counts_score a b h.1 hfits)
  obtain ⟨ha, hb⟩ := AlikeList.anyForeign _ _ h
  refine returns_mergeFronts_pair (returns_mergeBlocks h hblocks) (returns_mergeRuns h hruns) ha hb (.inl hone)
    (returns_mergePair ?_ ?_ hmerge)
  · rintro r u rfl
    exact h.1.isElement.symm
  · rintro r u rfl
    exact h.1.isElement

theorem returns_inScope_self {m : Merge Node} {n : Node}
    (h : Returns m { s with left := [], right := [] } n { s with left := [], right := [] }) :
    Returns (inScope m) s (n, [], []) s :=
  returns_inScope.mpr ⟨_, h, rfl, rfl⟩

theorem returns_mergeTexts_self (v : String) : Returns (mergeTexts chain around v v) s (.text v) s := by
  simp [mergeTexts]

theorem returns_mergeDrawings {tag : Tag} {a b : Node} {x : String} (ha : Markup.render [a] = .ok x)
    (hb : Markup.render [b] = .ok x) : Returns (mergeDrawings chain tag a b) s a s := by
  rw [mergeDrawings, returns_bind]
  refine ⟨x, s, returns_ofExcept.mpr ⟨ha, rfl⟩, ?_⟩
  rw [returns_bind]
  refine ⟨x, s, returns_ofExcept.mpr ⟨hb, rfl⟩, ?_⟩
  simp

mutual
theorem returns_settled : (a b : Node) → a.Alike b → Settled α a b → a.Proper → Counting.Fits α a.size →
    (fuel : Nat) → a.elementDepth + a.blockDepth < fuel → (chain : Scope) → (around : Around) →
    (s : MergeState) → Returns (mergeNode α fuel chain around a b) s a s
  | _, _, _, _, _, _, 0, hfuel, _, _, _ => absurd hfuel (Nat.not_lt_zero _)
  | .literal k v, b, h, _, _, _, fuel + 1, _, chain, around, s => by
    cases b with
    | literal l w =>
      obtain ⟨rfl, rfl⟩ := h
      rw [mergeNode]
      cases k <;> simp [mergeStep, returns_mergeTexts_self]
    | _ => exact h.elim
  | .slot k r, b, h, _, _, _, fuel + 1, _, chain, around, s => by
    cases b with
    | slot l q =>
      obtain ⟨rfl, rfl⟩ := h
      simp [mergeNode, mergeStep]
    | _ => exact h.elim
  | .content, b, h, _, _, _, fuel + 1, _, chain, around, s => by
    cases b with
    | content => simp [mergeNode, mergeStep]
    | _ => exact h.elim
  | .foreign, b, h, _, _, _, fuel + 1, _, chain, around, s => h.elim
  | .block k r t, b, h, hset, hp, hfits, fuel + 1, hfuel, chain, around, s => by
    cases b with
    | block l q u =>
      obtain ⟨rfl, rfl, htu⟩ := h
      rw [Node.elementDepth, Node.blockDepth] at hfuel
      have htemplate := returns_inScope_self (s := s) (returns_settled t u htu (by rwa [Settled] at hset) hp
        (fits_mono (Nat.le_succ _) hfits) fuel (by omega) r around _)
      have hsame : t.same t = true := same_refl t hp
      cases k with
      | conditional =>
        rw [mergeNode, mergeStep, returns_bind]
        exact ⟨_, s, htemplate, returns_pure.mpr ⟨rfl, rfl⟩⟩
      | loop =>
        rw [mergeNode, mergeStep, returns_bind]
        refine ⟨_, s, htemplate, ?_⟩
        simp [hsame]
    | _ => exact h.elim
  | .element tag cs, b, h, hset, hp, hfits, fuel + 1, hfuel, chain, around, s => by
    cases b with
    | element tag' ds =>
      rw [Settled] at hset
      have hname : tag.name = tag'.name := h.1.name
      have hdiffer : (tag.name != tag'.name) = false := bne_eq_false_iff_eq.mpr hname
      rw [mergeNode, mergeStep, mergeElements, hdiffer]
      -- a drawing is compared as it is written, whatever its children are
      by_cases hsvg : tag.name = "svg"
      · rw [if_pos hsvg] at hset
        obtain ⟨x, hx, hy⟩ := hset
        rw [beq_iff_eq.mpr hsvg]
        exact returns_mergeDrawings hx hy
      · rw [if_neg hsvg] at hset
        rw [Node.elementDepth, Node.blockDepth] at hfuel
        rw [Node.size] at hfits
        have halign := returns_align cs ds h.2 hset.2 hp.2 (fits_mono (by omega) hfits) fuel (by omega)
          (cs.length + ds.length) (Nat.le_add_right _ _) chain ⟨some tag, some tag'⟩ rfl s
        have hsiblings : Returns (mergeSiblings α (mergeNode α fuel) chain ⟨some tag, some tag'⟩ cs ds) s cs s := by
          rw [mergeSiblings, returns_bind]
          exact ⟨none, s, returns_mergeInline h.2 hset.1, halign⟩
        rw [beq_eq_false_iff_ne.mpr hsvg]
        simp only [Bool.false_eq_true, if_false, returns_bind]
        exact ⟨tag.attrs, s, returns_mergeAttributes h.1, cs, s, hsiblings, returns_pure.mpr ⟨rfl, rfl⟩⟩
    | _ => exact h.elim

theorem returns_align : (as bs : List Node) → AlikeList as bs → {enclosing : Option Tag} →
    SettledList α enclosing as bs → ProperList as → Counting.Fits α (sizeOfList as) → (fuel : Nat) →
    elementDepthOfList as + blockDepthOfList as < fuel → (steps : Nat) → as.length ≤ steps →
    (chain : Scope) → (around : Around) → around.left = enclosing → (s : MergeState) →
    Returns (align α (mergeNode α fuel) chain around steps as bs) s as s
  | [], bs, h, enclosing, _, _, _, fuel, _, steps, _, chain, around, _, s => by
    cases bs with
    | nil => cases steps <;> exact returns_pure.mpr ⟨rfl, rfl⟩
    | cons => exact h.elim
  | a :: as, bs, h, enclosing, hset, hp, hfits, fuel, hfuel, steps, hsteps, chain, around, hleft, s => by
    cases bs with
    | nil => exact h.elim
    | cons b bs =>
      obtain ⟨steps, rfl⟩ : ∃ n, steps = n + 1 := ⟨steps - 1, by rw [List.length_cons] at hsteps; omega⟩
      obtain ⟨hab, hruns, hblocks, hrest⟩ := hset
      rw [sizeOfList] at hfits
      rw [elementDepthOfList, blockDepthOfList] at hfuel
      have hmerge := returns_settled a b h.1 hab hp.1 (fits_mono (by omega) hfits) fuel (by omega) chain around s
      have hfront := returns_mergeFronts h hruns (hleft ▸ hblocks) (fits_mono (by omega) hfits) hmerge
      have hothers := returns_align as bs h.2 hrest hp.2 (fits_mono (by omega) hfits) fuel (by omega) steps
        (by rw [List.length_cons] at hsteps; omega) chain around hleft s
      rw [align, returns_bind]
      refine ⟨_, s, hfront, ?_⟩
      rw [returns_bind]
      exact ⟨as, s, hothers, returns_pure.mpr ⟨rfl, rfl⟩⟩
end

end Merge

end Stencil
