import Stencil.Merge.Siblings
import Stencil.Proofs.LongestRun
import Stencil.Proofs.Merge.Change

namespace Stencil.Merge

variable {chain : Scope} {around : Around} {side : Side} {s t : MergeState}

inductive Inlined (chain : Scope) (as bs : List Node) (s : MergeState) :
    List Node → MergeState → Prop
  | readRight {r : Reference} {x : Value} {t : MergeState} :
    singleSlot? .inlineMarkdown as = some r → Markdown.isInlineTree bs = true →
    Reads .right r.key x s t → Inlined chain as bs s [.slot .inlineMarkdown r] t
  | readLeft {r : Reference} {x : Value} {t : MergeState} :
    singleSlot? .inlineMarkdown bs = some r → Markdown.isInlineTree as = true →
    Reads .left r.key x s t → Inlined chain as bs s [.slot .inlineMarkdown r] t
  | fresh {key : String} {x y : Value} {t : MergeState} :
    ((singleSlot? .plain as).isSome ∨ Markdown.isInlineTree as = true) →
    ((singleSlot? .plain bs).isSome ∨ Markdown.isInlineTree bs = true) →
    Opens chain .left key x y s t → Inlined chain as bs s [.slot .inlineMarkdown (chain ++ [key])] t

theorem Returns.inlineValue {textSlot : Option Reference} {md key : String} {x : Unit}
    (h : Returns (inlineValue side textSlot md key) s x t) : ∃ v, Reads side key v s t := by
  cases textSlot with
  | none =>
    simp only [Merge.inlineValue, returns_put] at h
    subst h
    exact ⟨_, .put ..⟩
  | some r =>
    simp only [Merge.inlineValue, returns_bind, returns_find?, returns_put, returns_reshape] at h
    obtain ⟨_, _, ⟨rfl, rfl⟩, _, _, rfl, rfl⟩ := h
    exact ⟨_, (Reads.put ..).quiet (quiet_reshape _)⟩

theorem Returns.mergeInline {as bs ns : List Node}
    (h : Returns (mergeInline? chain around as bs) s (some ns) t) : Inlined chain as bs s ns t := by
  unfold mergeInline? at h
  split at h
  · simp at h
  · split at h
    · simp at h
    · next r hr _ =>
      split at h
      · next hbs =>
        simp only [returns_bind, returns_put, returns_pure] at h
        obtain ⟨_, _, hmd, _, _, rfl, hns, rfl⟩ := h
        obtain ⟨-, rfl⟩ := returns_ofExcept.mp hmd
        cases hns
        exact .readRight hr hbs (.put ..)
      · simp at h
    · next r _ hr =>
      split at h
      · next has =>
        simp only [returns_bind, returns_put, returns_pure] at h
        obtain ⟨_, _, hmd, _, _, rfl, hns, rfl⟩ := h
        obtain ⟨-, rfl⟩ := returns_ofExcept.mp hmd
        cases hns
        exact .readLeft hr has (.put ..)
      · simp at h
    · dsimp only at h
      split at h
      · simp at h
      · next hno =>
        simp only [Bool.or_eq_true, not_or, Bool.and_eq_true, not_and, Bool.not_eq_true',
          Bool.not_eq_false, Option.isNone_iff_eq_none] at hno
        have fresh (x y : String) (h : Returns (if (singleSlot? .plain as).isNone &&
            (singleSlot? .plain bs).isNone && x == y then pure none else do
              let key ← Merge.newKey chain around.left "inline_markdown" .inlineMarkdown around.left none
              Merge.inlineValue .left (singleSlot? .plain as) x key
              Merge.inlineValue .right (singleSlot? .plain bs) y key
              debug ("Inline markdown variable " ++ key)
              return some [.slot .inlineMarkdown (reference chain key)]) s (some ns) t) :
            Inlined chain as bs s ns t := by
          split at h
          · simp at h
          · simp only [returns_bind, returns_debug, returns_pure] at h
            obtain ⟨key, _, hkey, _, _, hleft, _, _, hright, _, _, rfl, hns, rfl⟩ := h
            cases hns
            have hkey := Returns.newKey hkey
            obtain ⟨x, hleft⟩ := Returns.inlineValue hleft
            obtain ⟨y, hright⟩ := Returns.inlineValue hright
            rw [hkey.reference]
            refine .fresh ?_ ?_ ((hkey.opens hleft hright).quiet (quiet_addLine ..))
            · cases ha : singleSlot? .plain as with
              | some r => exact .inl rfl
              | none => exact .inr (hno.1.1.2 ha)
            · cases hb : singleSlot? .plain bs with
              | some r => exact .inl rfl
              | none => exact .inr (hno.1.2 hb)
        -- the two texts are found without touching the state
        split at h <;> rw [returns_bind] at h <;> obtain ⟨x, _, hx, h⟩ := h <;> split at h <;>
          rw [returns_bind] at h <;> obtain ⟨y, _, hy, h⟩ := h <;>
          simp only [markdown, returns_pure, returns_ofExcept] at hx hy <;>
          obtain ⟨-, rfl⟩ := hx <;> obtain ⟨-, rfl⟩ := hy <;> exact fresh _ _ h

inductive Blocks (chain : Scope) (as bs : List Node) (s : MergeState) : Taken → MergeState → Prop
  | readRight {r : Reference} {x : Value} {t : MergeState} :
    as.head? = some (.slot .markdown r) → Reads .right r.key x s t →
    Blocks chain as bs s ⟨.slot .markdown r, 1, Markdown.run bs⟩ t
  | readLeft {r : Reference} {x : Value} {t : MergeState} :
    bs.head? = some (.slot .markdown r) → Reads .left r.key x s t →
    Blocks chain as bs s ⟨.slot .markdown r, Markdown.run as, 1⟩ t
  | fresh {key : String} {x y : Value} {t : MergeState} : Opens chain .left key x y s t →
    Blocks chain as bs s ⟨.slot .markdown (chain ++ [key]), Markdown.run as, Markdown.run bs⟩ t

theorem Returns.mergeBlocks {as bs : List Node} {taken : Taken}
    (h : Returns (mergeBlocks? chain around as bs) s (some taken) t) :
    Blocks chain as bs s taken t := by
  unfold mergeBlocks? at h
  dsimp only at h
  split at h
  · simp at h
  · split at h
    · next r hr =>
      split at h
      · simp only [returns_bind, returns_put, returns_pure] at h
        obtain ⟨_, _, hmd, _, _, rfl, htaken, rfl⟩ := h
        obtain ⟨-, rfl⟩ := returns_ofExcept.mp hmd
        cases htaken
        exact .readRight hr (.put ..)
      · simp at h
    · next r hr _ =>
      split at h
      · simp only [returns_bind, returns_put, returns_pure] at h
        obtain ⟨_, _, hmd, _, _, rfl, htaken, rfl⟩ := h
        obtain ⟨-, rfl⟩ := returns_ofExcept.mp hmd
        cases htaken
        exact .readLeft hr (.put ..)
      · simp at h
    · split at h
      · rw [returns_bind] at h
        obtain ⟨x, _, hx, h⟩ := h
        obtain ⟨-, rfl⟩ := returns_ofExcept.mp hx
        rw [returns_bind] at h
        obtain ⟨y, _, hy, h⟩ := h
        obtain ⟨-, rfl⟩ := returns_ofExcept.mp hy
        split at h
        · simp at h
        · simp only [returns_bind, returns_put, returns_debug, returns_pure] at h
          obtain ⟨key, _, hkey, _, _, rfl, _, _, rfl, _, _, rfl, htaken, rfl⟩ := h
          cases htaken
          have hkey := Returns.newKey hkey
          rw [hkey.reference]
          exact .fresh ((hkey.opens (.put .left ..) (.put .right ..)).quiet (quiet_addLine ..))
      · simp at h

theorem Returns.mergeBlocks_frontLength {as bs : List Node} {taken : Taken}
    (h : Returns (mergeBlocks? chain around as bs) s (some taken) t) :
    taken.left = Markdown.frontLength as ∧ taken.right = Markdown.frontLength bs ∧
      0 < taken.left ∧ 0 < taken.right := by
  unfold mergeBlocks? at h
  dsimp only at h
  split at h
  · simp at h
  · split at h
    · next r hslot =>
      split at h
      · next hblock =>
        simp only [returns_bind, returns_put, returns_pure] at h
        obtain ⟨_, _, -, _, _, rfl, htaken, -⟩ := h
        cases htaken
        exact ⟨(Markdown.frontLength_of_slot hslot).symm, (Markdown.frontLength_of_block hblock).symm, Nat.one_pos,
          Markdown.run_pos_of_head hblock⟩
      · simp at h
    · next r hslot _ =>
      split at h
      · next hblock =>
        simp only [returns_bind, returns_put, returns_pure] at h
        obtain ⟨_, _, -, _, _, rfl, htaken, -⟩ := h
        cases htaken
        exact ⟨(Markdown.frontLength_of_block hblock).symm, (Markdown.frontLength_of_slot hslot).symm,
          Markdown.run_pos_of_head hblock, Nat.one_pos⟩
      · simp at h
    · split at h
      · next hblocks =>
        rw [Bool.and_eq_true] at hblocks
        rw [returns_bind] at h
        obtain ⟨x, _, -, h⟩ := h
        rw [returns_bind] at h
        obtain ⟨y, _, -, h⟩ := h
        split at h
        · simp at h
        · simp only [returns_bind, returns_put, returns_debug, returns_pure] at h
          obtain ⟨_, _, -, _, _, rfl, _, _, rfl, _, _, rfl, htaken, -⟩ := h
          cases htaken
          exact ⟨(Markdown.frontLength_of_block hblocks.1).symm, (Markdown.frontLength_of_block hblocks.2).symm,
            Markdown.run_pos_of_head hblocks.1, Markdown.run_pos_of_head hblocks.2⟩
      · simp at h

def absent : Node → Value
  | .block .loop .. => .list []
  | .block .conditional .. => .null
  | _ => .text ""

inductive Unmatched (chain : Scope) (side : Side) (enclosing : Option Tag) :
    Node → List Node → MergeState → Node → Nat → MergeState → Prop
  | literal {k : LiteralKind} {v : String} {rest : List Node} {s : MergeState} :
    (k = .text → Text.strip v = "") →
    Unmatched chain side enclosing (.literal k v) rest s (.literal k v) 1 s
  | content {rest : List Node} {s : MergeState} :
    Unmatched chain side enclosing .content rest s .content 1 s
  | text {v key : String} {rest : List Node} {s t : MergeState} : Text.strip v ≠ "" →
    Opens chain side key (.text (Text.strip v)) (.text "") s t →
    Unmatched chain side enclosing (.literal .text v) rest s (.slot .plain (chain ++ [key])) 1 t
  | slot {k : SlotKind} {r : Reference} {rest : List Node} {s t : MergeState} :
    Reads side.other r.key (.text "") s t →
    Unmatched chain side enclosing (.slot k r) rest s (.slot k r) 1 t
  | block {k : BlockKind} {r : Reference} {n : Node} {rest : List Node} {s t : MergeState} :
    Reads side.other r.key (absent (.block k r n)) s t →
    Unmatched chain side enclosing (.block k r n) rest s (.block k r n) 1 t
  | markdown {tag : Tag} {cs rest : List Node} {key : String} {x : Value} {s t : MergeState} :
    (Markdown.allowsBlocks enclosing && Markdown.isBlock (.element tag cs)) = true →
    Opens chain side key x (.text "") s t →
    Unmatched chain side enclosing (.element tag cs) rest s (.slot .markdown (chain ++ [key]))
      (Markdown.run (.element tag cs :: rest)) t
  | wrapped {tag : Tag} {cs rest : List Node} {n : Node} {s t : MergeState} :
    (Markdown.allowsBlocks enclosing && Markdown.isBlock (.element tag cs)) = false →
    Returns (wrapElement chain side tag (.element tag cs)) s n t →
    Unmatched chain side enclosing (.element tag cs) rest s n 1 t

theorem Returns.unmatched {enclosing : Option Tag} {n m : Node} {rest : List Node} {count : Nat}
    (h : Returns (unmatched chain side enclosing n rest) s (m, count) t) :
    Unmatched chain side enclosing n rest s m count t := by
  unfold Merge.unmatched at h
  split at h
  · next v =>
    dsimp only at h
    split at h
    · next hblank =>
      rw [returns_pure] at h
      obtain ⟨hm, rfl⟩ := h
      cases hm
      exact .literal fun _ => by simpa using hblank
    · next hblank =>
      simp only [returns_bind, returns_put, returns_pure] at h
      obtain ⟨key, _, hkey, _, _, rfl, _, _, rfl, hm, rfl⟩ := h
      cases hm
      have hkey := Returns.newKey hkey
      rw [hkey.reference]
      exact .text (by simpa using hblank) (hkey.opens (.put ..) (.put ..))
  · next k v hk =>
    rw [returns_pure] at h
    obtain ⟨hm, rfl⟩ := h
    cases hm
    exact .literal fun hkind => (hk hkind).elim
  · rw [returns_pure] at h
    obtain ⟨hm, rfl⟩ := h
    cases hm
    exact .content
  · simp only [returns_bind, returns_put, returns_pure] at h
    obtain ⟨_, _, rfl, hm, rfl⟩ := h
    cases hm
    exact .slot (.put ..)
  · simp only [returns_bind, returns_put, returns_pure] at h
    obtain ⟨_, _, rfl, hm, rfl⟩ := h
    cases hm
    exact .block (.put ..)
  · simp only [returns_bind, returns_put, returns_pure] at h
    obtain ⟨_, _, rfl, hm, rfl⟩ := h
    cases hm
    exact .block (.put ..)
  · split at h
    · next hblock =>
      simp only [returns_bind, returns_put, returns_debug, returns_pure] at h
      obtain ⟨key, _, hkey, x, _, hx, _, _, rfl, _, _, rfl, _, _, rfl, hm, rfl⟩ := h
      obtain ⟨-, rfl⟩ := returns_ofExcept.mp hx
      cases hm
      have hkey := Returns.newKey hkey
      rw [hkey.reference]
      exact .markdown hblock ((hkey.opens (.put ..) (.put ..)).quiet (quiet_addLine ..))
    · next hblock =>
      simp only [returns_bind, returns_pure] at h
      obtain ⟨_, _, hwrap, hm, rfl⟩ := h
      cases hm
      exact .wrapped (by simpa using hblock) hwrap
  · simp at h

end Stencil.Merge
