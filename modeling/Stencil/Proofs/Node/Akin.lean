import Stencil.Merge.Loop
import Stencil.Proofs.Score

namespace Stencil

namespace Node

def Akin : Node → Node → Prop
  | literal k _, literal l _ => k = l
  | literal k _, slot l _ => k = .text ∧ Score.isTextLike l = true
  | slot k _, literal l _ => l = .text ∧ Score.isTextLike k = true
  | slot k _, slot l _ => k = l
  | slot k _, element t _ => k = .html ∧ t.name = "svg"
  | element s _, slot l _ => l = .html ∧ s.name = "svg"
  | element s _, element t _ => s.name = t.name
  | content, content => True
  | _, _ => False

theorem Akin.symm {a b : Node} (h : Akin a b) : Akin b a := by
  cases a <;> cases b <;> first | exact h.elim | exact Eq.symm h | exact h

theorem core_core : (n : Node) → n.core.core = n.core
  | block _ _ t => core_core t
  | element .. => rfl
  | literal .. => rfl
  | slot .. => rfl
  | content => rfl
  | foreign => rfl

theorem core_of_not_block {n : Node} (h : ¬ ∃ k r t, n = block k r t) : n.core = n := by
  cases n with
  | block k r t => exact absurd ⟨k, r, t, rfl⟩ h
  | _ => rfl

theorem kind_core (n : Node) : n.core.kind = n.kind := by
  rw [kind, kind, core_core]

theorem Akin.kind_eq {a b : Node} (h : Akin a b) : a.kind = b.kind := by
  cases a <;> cases b <;> try exact h.elim
  case literal.literal => exact congrArg Kind.literal h
  case literal.slot k v l r =>
    obtain ⟨rfl, hl⟩ := h
    cases l <;> first | rfl | cases hl
  case slot.literal k r l v =>
    obtain ⟨rfl, hk⟩ := h
    cases k <;> first | rfl | cases hk
  case slot.slot k r l q =>
    cases h
    cases k <;> rfl
  case slot.element =>
    obtain ⟨rfl, hname⟩ := h
    exact congrArg Kind.element hname.symm
  case element.slot =>
    obtain ⟨rfl, hname⟩ := h
    exact congrArg Kind.element hname
  case element.element => exact congrArg Kind.element h
  case content.content => rfl

theorem kind_of_akin {a b : Node} (h : Akin a.core b.core) : a.kind = b.kind := by
  rw [← kind_core a, ← kind_core b]
  exact h.kind_eq

theorem core_of_kind {n : Node} {name : String} (h : n.kind = .element name) :
    (∃ t cs, n.core = element t cs ∧ t.name = name) ∨ ∃ r, n.core = slot .html r ∧ name = "svg" := by
  rw [kind] at h
  split at h
  · cases h
  · next t cs hcore =>
    cases h
    exact .inl ⟨t, cs, hcore, rfl⟩
  · cases h
  · cases h
  · next r hcore =>
    cases h
    exact .inr ⟨r, hcore, rfl⟩
  · cases h

theorem akin_of_kind {a b : Node} {name : String} (ha : a.kind = .element name) (hb : b.kind = .element name) :
    Akin a.core b.core := by
  rcases core_of_kind ha with ⟨s, cs, hs, rfl⟩ | ⟨r, hr, rfl⟩ <;>
    rcases core_of_kind hb with ⟨t, ds, ht, hname⟩ | ⟨q, hq, hname⟩
  · rw [hs, ht]
    exact hname.symm
  · rw [hs, hq]
    exact ⟨rfl, hname⟩
  · rw [hr, ht]
    exact ⟨rfl, hname⟩
  · rw [hr, hq]
    exact rfl

theorem core_insertKey (depth : Nat) (key : String) : (n : Node) →
    (n.insertKey depth key).core = n.core.insertKey depth key
  | block _ _ t => by rw [insertKey, core, core, core_insertKey depth key t]
  | element .. => rfl
  | literal .. => rfl
  | slot .. => rfl
  | content => rfl
  | foreign => rfl

theorem kind_insertKey (depth : Nat) (key : String) (n : Node) : (n.insertKey depth key).kind = n.kind := by
  rw [kind, kind, core_insertKey]
  cases n.core with
  | slot k r => cases k <;> rfl
  | block => rfl
  | _ => rfl

mutual
/-- Every block wraps, perhaps with further blocks in between, an element or the slot of a drawing. Drawings and
their slots stand only where they may. -/
def Framed (drawings : Bool) : Node → Prop
  | element t cs => (t.name = "svg" → drawings = true) ∧ FramedList drawings cs
  | slot k _ => k = .html → drawings = true
  | block _ _ t => (∃ name, t.kind = .element name) ∧ Framed drawings t
  | _ => True

def FramedList (drawings : Bool) : List Node → Prop
  | [] => True
  | n :: rest => Framed drawings n ∧ FramedList drawings rest
end

theorem framedList_iff {drawings : Bool} {ns : List Node} : FramedList drawings ns ↔ ∀ n ∈ ns, n.Framed drawings := by
  induction ns with
  | nil => simp [FramedList]
  | cons n ns ih => rw [FramedList, ih, List.forall_mem_cons]

mutual
theorem Framed.insertKey {drawings : Bool} (depth : Nat) (key : String) : (n : Node) → n.Framed drawings →
    (n.insertKey depth key).Framed drawings
  | element _ cs, h => ⟨h.1, FramedList.insertKeys depth key cs h.2⟩
  | slot .., h => h
  | block _ _ t, h => by
    obtain ⟨⟨name, hname⟩, ht⟩ := h
    exact ⟨⟨name, (kind_insertKey depth key t).trans hname⟩, Framed.insertKey depth key t ht⟩
  | literal .., h => h
  | content, h => h
  | foreign, h => h

theorem FramedList.insertKeys {drawings : Bool} (depth : Nat) (key : String) : (ns : List Node) →
    FramedList drawings ns → FramedList drawings (insertKeys depth key ns)
  | [], h => h
  | n :: ns, h => ⟨Framed.insertKey depth key n h.1, FramedList.insertKeys depth key ns h.2⟩
end

end Node

namespace Score

open Grade Node

variable {α : Type} [Grade α]

theorem akin_of_leafScore {structural : Bool} {a b : Node} (h : (leafScore structural a b : α) ≠ zero) :
    Akin a b := by
  cases a <;> cases b <;> try exact absurd rfl h
  case literal.literal k v l w => cases k <;> cases l <;> first | rfl | exact absurd rfl h
  case literal.slot k v l r => cases k <;> cases l <;> first | exact ⟨rfl, rfl⟩ | exact absurd rfl h
  case slot.literal k r l v => cases k <;> cases l <;> first | exact ⟨rfl, rfl⟩ | exact absurd rfl h
  case slot.slot k r l q => cases k <;> cases l <;> first | rfl | exact absurd rfl h
  case slot.element k r t ds =>
    cases k <;> try exact absurd rfl h
    refine ⟨rfl, ?_⟩
    by_contra hname
    exact h (if_neg (by simpa using hname))
  case element.slot t ds k r =>
    cases k <;> try exact absurd rfl h
    refine ⟨rfl, ?_⟩
    by_contra hname
    exact h (if_neg (by simpa using hname))
  case content.content => trivial
  all_goals
    rename LiteralKind => k
    cases k <;> exact absurd rfl h

theorem akin_of_score {structural : Bool} {a b : Node} (h : (score structural a b : α) ≠ zero) :
    Akin a.core b.core := by
  have leaf (hleaf : a.core.isElement = false ∨ b.core.isElement = false) : Akin a.core b.core := by
    rw [score_of_not_element a hleaf] at h
    exact akin_of_leafScore h
  cases ha : a.core with
  | element s cs =>
    cases hb : b.core with
    | element t ds =>
      by_contra hname
      apply h
      rw [← score_core_left a, ← score_core_right b, ha, hb]
      exact score_of_name_ne hname
    | _ =>
      rw [← ha, ← hb]
      exact leaf (.inr (by rw [hb]; rfl))
  | _ =>
    rw [← ha]
    exact leaf (.inl (by rw [ha]; rfl))

end Score

end Stencil
