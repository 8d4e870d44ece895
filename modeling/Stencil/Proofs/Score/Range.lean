import Stencil.Proofs.FullScore
import Stencil.Proofs.UnitScore

/-!
Without rounding the score of any two nodes lies between 0 and 1. Of two nodes of pages it is 1 exactly if they
differ in nothing but the order of attributes and classes and the values of attributes whose presence alone
matters.
-/

namespace Stencil

namespace Attribute

/-- Attributes of one name with one value, where class values are sets of classes and the values of boolean
attributes do not matter. -/
inductive Equivalent : Attribute → Attribute → Prop
  | equal (n v : String) : Equivalent (fixed n v) (fixed n v)
  | boolean {n v w : String} (h : n ∈ Score.booleanAttributes) : Equivalent (fixed n v) (fixed n w)
  | classes {v w : String} (h : ∀ c, c ∈ Text.words v ↔ c ∈ Text.words w) :
      Equivalent (fixed "class" v) (fixed "class" w)

theorem Equivalent.name_eq {a b : Attribute} (h : a.Equivalent b) : a.name = b.name := by
  cases h <;> rfl

theorem Equivalent.alike {a b : Attribute} (h : a.Equivalent b) : a.Alike b := by
  cases h with
  | equal n v => exact Merge.sameAttributeValue_self n v
  | boolean hn =>
    rw [Alike, Merge.sameAttributeValue, if_pos (List.contains_iff_mem.mpr hn)]
  | classes hwords =>
    have hlists := classList_eq_iff.mpr hwords
    simp [Alike, Merge.sameAttributeValue, hlists]

theorem equivalent_of_alike {n v m w : String} (hname : n = m) (h : (fixed n v).Alike (fixed m w)) :
    (fixed n v).Equivalent (fixed m w) := by
  subst hname
  rw [Alike, Merge.sameAttributeValue] at h
  split at h
  · next hn => exact .boolean (List.contains_iff_mem.mp hn)
  · split at h
    · next hclass =>
      obtain rfl : n = "class" := beq_iff_eq.mp hclass
      exact .classes (classList_eq_iff.mp (beq_iff_eq.mp h))
    · obtain rfl : v = w := beq_iff_eq.mp h
      exact .equal n v

end Attribute

structure Tag.Equivalent (s t : Tag) : Prop where
  name : s.name = t.name
  attrs : ∃ attrs, List.Forall₂ Attribute.Equivalent s.attrs attrs ∧ attrs.Perm t.attrs

theorem exists_of_forall₂ {β γ : Type} {R : β → γ → Prop} {xs : List β} {ys : List γ} (h : List.Forall₂ R xs ys)
    {x : β} (hx : x ∈ xs) : ∃ y ∈ ys, R x y := by
  induction h with
  | nil => cases hx
  | @cons x' y xs ys hxy hrest ih =>
    rcases List.mem_cons.mp hx with rfl | hx
    · exact ⟨y, List.mem_cons_self, hxy⟩
    · obtain ⟨z, hz, hxz⟩ := ih hx
      exact ⟨z, List.mem_cons_of_mem _ hz, hxz⟩

theorem Tag.Equivalent.alike {s t : Tag} (h : s.Equivalent t) (hs : (s.attrs.map Attribute.name).Nodup)
    (ht : (t.attrs.map Attribute.name).Nodup) : s.Alike t := by
  obtain ⟨hname, attrs, hmatch, hperm⟩ := h
  refine ⟨hname, ?_, ?_⟩
  · intro a ha
    obtain ⟨b, hb, hab⟩ := exists_of_forall₂ hmatch ha
    refine ⟨b, ?_, hab.alike⟩
    rw [hab.name_eq]
    exact Tag.attr?_of_mem ht (hperm.subset hb)
  · intro b hb
    obtain ⟨a, ha, hab⟩ := exists_of_forall₂ hmatch.flip (hperm.symm.subset hb)
    refine ⟨a, ?_, hab.alike⟩
    rw [← hab.name_eq]
    exact Tag.attr?_of_mem hs ha

theorem Tag.equivalent_of_alike {s t : Tag} (hs : (s.attrs.map Attribute.name).Nodup)
    (hfixed : ∀ a ∈ s.attrs, a.isFixed = true) (ht : (t.attrs.map Attribute.name).Nodup)
    (h : s.Alike t) : s.Equivalent t := by
  -- each attribute of the first element stands for the one of the same name
  have hpartner : ∀ a ∈ s.attrs, t.attr? a.name = some ((t.attr? a.name).getD a) ∧
      a.Equivalent ((t.attr? a.name).getD a) := by
    intro a ha
    obtain ⟨b, hb, hab⟩ := h.found a ha
    rw [hb, Option.getD_some]
    refine ⟨rfl, ?_⟩
    have hname := (Tag.mem_of_attr? hb).2
    have hkind := hfixed a ha
    cases a <;> cases hkind
    cases b <;> try exact hab.elim
    exact Attribute.equivalent_of_alike hname.symm hab
  refine ⟨h.name, s.attrs.map fun a => (t.attr? a.name).getD a, ?_, ?_⟩
  · rw [List.forall₂_map_right_iff, List.forall₂_same]
    intro a ha
    exact (hpartner a ha).2
  · have hnames : (s.attrs.map fun a => (t.attr? a.name).getD a).map Attribute.name = s.attrs.map Attribute.name := by
      rw [List.map_map]
      apply List.map_congr_left
      intro a ha
      exact (hpartner a ha).2.name_eq.symm
    apply (List.perm_ext_iff_of_nodup _ (List.Nodup.of_map _ ht)).mpr
    · intro b
      rw [List.mem_map]
      constructor
      · rintro ⟨a, ha, rfl⟩
        exact (Tag.mem_of_attr? (hpartner a ha).1).1
      · intro hb
        obtain ⟨a, ha, -⟩ := h.known b hb
        obtain ⟨hmem, hsame⟩ := Tag.mem_of_attr? ha
        refine ⟨a, hmem, ?_⟩
        rw [hsame, Tag.attr?_of_mem ht hb, Option.getD_some]
    · apply List.Nodup.of_map Attribute.name
      rwa [hnames]

namespace Node

mutual
/-- Equality of pages up to the order of attributes, class values as sets of classes and the values of boolean
attributes. -/
def Equivalent : Node → Node → Prop
  | literal k v, literal l w => k = l ∧ v = w
  | element s cs, element t ds => s.Equivalent t ∧ EquivalentList cs ds
  | _, _ => False

def EquivalentList : List Node → List Node → Prop
  | [], [] => True
  | a :: as, b :: bs => Equivalent a b ∧ EquivalentList as bs
  | _, _ => False
end

mutual
theorem alike_iff_equivalent : (a b : Node) → a.Literal → b.Literal → (Alike a b ↔ Equivalent a b)
  | literal k v, b, _, hb => by
    cases b <;> first | exact hb.elim | rfl
  | element s cs, b, ha, hb => by
    cases b with
    | element t ds =>
      obtain ⟨hs, hfixed, hcs⟩ := ha
      obtain ⟨ht, -, hds⟩ := hb
      have htags : s.Alike t ↔ s.Equivalent t :=
        ⟨Tag.equivalent_of_alike hs hfixed ht, fun h => h.alike hs ht⟩
      exact and_congr htags (alikeList_iff_equivalentList cs ds hcs hds)
    | literal => rfl
    | _ => exact hb.elim

theorem alikeList_iff_equivalentList : (as bs : List Node) → LiteralList as → LiteralList bs →
    (AlikeList as bs ↔ EquivalentList as bs)
  | [], bs, _, _ => by cases bs <;> rfl
  | _ :: _, [], _, _ => Iff.rfl
  | a :: as, b :: bs, ha, hb =>
    and_congr (alike_iff_equivalent a b ha.1 hb.1) (alikeList_iff_equivalentList as bs ha.2 hb.2)
end

end Node

namespace Score

open Grade Exact

theorem score_mem_unit_and_eq_one_iff :
    (∀ (structural : Bool) (a b : Node), 0 ≤ (score structural a b : Rat) ∧ (score structural a b : Rat) ≤ 1) ∧
      ∀ a b : Node, a.Literal → b.Literal → ((score false a b : Rat) = 1 ↔ a.Equivalent b) := by
  constructor
  · intro structural a b
    exact ⟨score_nonneg (α := Rat) structural a b, score_le_one (α := Rat) structural a b⟩
  · intro a b ha hb
    rw [← Node.alike_iff_equivalent a b ha hb]
    constructor
    · exact alike_of_score (α := Rat) a b ha hb
    · intro hab
      have hone : (score false a b : Rat) = (1 : Nat) := counts_score (α := Rat) a b hab trivial
      rw [hone, Nat.cast_one]

theorem score_eq_one_reordered :
    ∃ a b : Node, a.Literal ∧ b.Literal ∧ a.same b = false ∧ a.Equivalent b ∧ (score false a b : Rat) = 1 := by
  let s : Tag := ⟨"p", [.fixed "class" "note new", .fixed "hidden" ""]⟩
  let t : Tag := ⟨"p", [.fixed "hidden" "hidden", .fixed "class" "new note"]⟩
  have ha : Node.Literal (.element s [.text "x"]) := ⟨by decide, by decide, trivial, trivial⟩
  have hb : Node.Literal (.element t [.text "x"]) := ⟨by decide, by decide, trivial, trivial⟩
  have hwords : ∀ c, c ∈ Text.words "note new" ↔ c ∈ Text.words "new note" := by
    have hleft : Text.words "note new" = ["note", "new"] := by decide
    have hright : Text.words "new note" = ["new", "note"] := by decide
    intro c
    rw [hleft, hright, List.mem_pair, List.mem_pair, or_comm]
  have htags : s.Equivalent t := by
    refine ⟨rfl, [.fixed "class" "new note", .fixed "hidden" "hidden"], ?_, List.Perm.swap ..⟩
    exact .cons (.classes hwords) (.cons (.boolean (by decide)) .nil)
  have hequiv : Node.Equivalent (.element s [.text "x"]) (.element t [.text "x"]) :=
    ⟨htags, ⟨rfl, rfl⟩, trivial⟩
  exact ⟨_, _, ha, hb, by decide, hequiv, (score_mem_unit_and_eq_one_iff.2 _ _ ha hb).mpr hequiv⟩

end Score

end Stencil
