import Mathlib.Data.List.Forall2
import Stencil.Proofs.Merge.Attributes
import Stencil.Proofs.Node.Kind
import Stencil.Proofs.Node.Same

namespace Stencil

def Attribute.Alike : Attribute → Attribute → Prop
  | .fixed n v, .fixed _ w => Merge.sameAttributeValue n v w = true
  | .slot .., .slot .. => True
  | .optional .., .optional .. => True
  | _, _ => False

structure Tag.Alike (s t : Tag) : Prop where
  name : s.name = t.name
  found : ∀ a ∈ s.attrs, ∃ b, t.attr? a.name = some b ∧ a.Alike b
  known : ∀ b ∈ t.attrs, ∃ a, s.attr? b.name = some a ∧ a.Alike b

theorem Attribute.alike_refl {a : Attribute} (h : a ≠ .foreign) : a.Alike a := by
  cases a with
  | fixed n v => exact Merge.sameAttributeValue_self n v
  | slot => trivial
  | optional => trivial
  | foreign => exact absurd rfl h

theorem Tag.alike_refl {t : Tag} (hnames : (t.attrs.map Attribute.name).Nodup)
    (hknown : Attribute.foreign ∉ t.attrs) : t.Alike t where
  name := rfl
  found a ha := by
    have hne : a ≠ .foreign := by
      rintro rfl
      exact hknown ha
    exact ⟨a, Tag.attr?_of_mem hnames ha, Attribute.alike_refl hne⟩
  known b hb := by
    have hne : b ≠ .foreign := by
      rintro rfl
      exact hknown hb
    exact ⟨b, Tag.attr?_of_mem hnames hb, Attribute.alike_refl hne⟩

theorem Attribute.Alike.isFixed {a b : Attribute} (h : a.Alike b) : a.isFixed = b.isFixed := by
  cases a <;> cases b <;> first | rfl | exact h.elim

theorem Tag.mem_of_attr? {t : Tag} {n : String} {b : Attribute} (h : t.attr? n = some b) :
    b ∈ t.attrs ∧ b.name = n := by
  exact ⟨List.mem_of_find?_eq_some h, by simpa using List.find?_some h⟩

namespace Node

mutual
def Alike : Node → Node → Prop
  | literal k v, literal l w => k = l ∧ v = w
  | element s cs, element t ds => s.Alike t ∧ AlikeList cs ds
  | slot k r, slot l q => k = l ∧ r = q
  | block k r t, block l q u => k = l ∧ r = q ∧ Alike t u
  | content, content => True
  | _, _ => False

def AlikeList : List Node → List Node → Prop
  | [], [] => True
  | a :: as, b :: bs => Alike a b ∧ AlikeList as bs
  | _, _ => False
end

mutual
theorem alike_refl : (n : Node) → n.Proper → n.hasForeign = false → Alike n n
  | literal .., _, _ => ⟨rfl, rfl⟩
  | slot .., _, _ => ⟨rfl, rfl⟩
  | content, _, _ => trivial
  | foreign, _, h => by cases h
  | block _ _ t, hp, hf => ⟨rfl, rfl, alike_refl t hp hf⟩
  | element t cs, hp, hf => by
    rw [hasForeign, Bool.or_eq_false_iff] at hf
    have hknown : Attribute.foreign ∉ t.attrs := by
      intro hmem
      rw [List.contains_iff_mem.mpr hmem] at hf
      cases hf.1
    exact ⟨Tag.alike_refl hp.1 hknown, alikeList_refl cs hp.2 hf.2⟩

theorem alikeList_refl : (ns : List Node) → ProperList ns → anyForeign ns = false → AlikeList ns ns
  | [], _, _ => trivial
  | n :: ns, hp, hf => by
    rw [anyForeign, Bool.or_eq_false_iff] at hf
    exact ⟨alike_refl n hp.1 hf.1, alikeList_refl ns hp.2 hf.2⟩
end

theorem alikeList_iff {as bs : List Node} : AlikeList as bs ↔ List.Forall₂ Alike as bs := by
  induction as generalizing bs with
  | nil => cases bs <;> simp [AlikeList]
  | cons a as ih => cases bs <;> simp [AlikeList, ih]

theorem AlikeList.map_eq {β : Type} {f : Node → β} (hf : ∀ a b, Alike a b → f a = f b) {as bs : List Node}
    (h : AlikeList as bs) : as.map f = bs.map f := by
  have hmaps : List.Forall₂ (· = ·) (as.map f) (bs.map f) := by
    rw [List.forall₂_map_left_iff, List.forall₂_map_right_iff]
    exact (alikeList_iff.mp h).imp hf
  rwa [List.forall₂_eq_eq_eq] at hmaps

theorem AlikeList.length_eq {as bs : List Node} (h : AlikeList as bs) : as.length = bs.length :=
  (alikeList_iff.mp h).length_eq

theorem AlikeList.isEmpty_eq {as bs : List Node} (h : AlikeList as bs) : as.isEmpty = bs.isEmpty := by
  cases as <;> cases bs <;> first | rfl | exact h.elim

theorem AlikeList.filter {p : Node → Bool} (hp : ∀ a b, Alike a b → p a = p b) {as bs : List Node}
    (h : AlikeList as bs) : AlikeList (as.filter p) (bs.filter p) :=
  alikeList_iff.mpr (List.rel_filter (fun a b hab => iff_of_eq (congrArg (· = true) (hp a b hab)))
    (alikeList_iff.mp h))

theorem AlikeList.all_eq {p : Node → Bool} (hp : ∀ a b, Alike a b → p a = p b) {as bs : List Node}
    (h : AlikeList as bs) : as.all p = bs.all p := by
  have hmap := congrArg (·.all id) (h.map_eq hp)
  simpa [List.all_map] using hmap

theorem AlikeList.any_eq {p : Node → Bool} (hp : ∀ a b, Alike a b → p a = p b) {as bs : List Node}
    (h : AlikeList as bs) : as.any p = bs.any p := by
  have hmap := congrArg (·.any id) (h.map_eq hp)
  simpa [List.any_map] using hmap

theorem Alike.isElement {a b : Node} (h : Alike a b) : a.isElement = b.isElement := by
  cases a <;> cases b <;> first | rfl | exact h.elim

theorem Alike.isBlankText {a b : Node} (h : Alike a b) : a.isBlankText = b.isBlankText := by
  cases a <;> cases b
  case literal.literal =>
    obtain ⟨rfl, rfl⟩ := h
    rfl
  all_goals first | rfl | exact h.elim

end Node

namespace Markdown

open Node

theorem hasAllowedAttributes_of_alike {s t : Tag} (h : s.Alike t) :
    hasAllowedAttributes s = hasAllowedAttributes t := by
  rw [Bool.eq_iff_iff]
  unfold hasAllowedAttributes
  rw [List.all_eq_true, List.all_eq_true, h.name]
  constructor
  · intro hall b hb
    obtain ⟨a, ha, hab⟩ := h.known b hb
    obtain ⟨hmem, hname⟩ := Tag.mem_of_attr? ha
    rw [← hab.isFixed, ← hname]
    exact hall a hmem
  · intro hall a ha
    obtain ⟨b, hb, hab⟩ := h.found a ha
    obtain ⟨hmem, hname⟩ := Tag.mem_of_attr? hb
    rw [hab.isFixed, ← hname]
    exact hall b hmem

mutual
theorem isInline_of_alike : (a b : Node) → Alike a b → isInline a = isInline b
  | .element s cs, b, h => by
    cases b with
    | element t ds =>
      rw [isInline, isInline, hasAllowedAttributes_of_alike h.1, h.1.name, isInlineTree_of_alike cs ds h.2]
    | _ => exact h.elim
  | .literal k v, b, h => by
    cases b with
    | literal l w =>
      obtain ⟨rfl, rfl⟩ := h
      rfl
    | _ => exact h.elim
  | .slot .., b, h => by cases b <;> first | rfl | exact h.elim
  | .block .., b, h => by cases b <;> first | rfl | exact h.elim
  | .content, b, h => by cases b <;> first | rfl | exact h.elim
  | .foreign, _, h => h.elim

theorem isInlineTree_of_alike : (as bs : List Node) → AlikeList as bs → isInlineTree as = isInlineTree bs
  | [], bs, h => by
    cases bs with
    | nil => rfl
    | cons => exact h.elim
  | a :: as, bs, h => by
    cases bs with
    | nil => exact h.elim
    | cons b bs => rw [isInlineTree, isInlineTree, isInline_of_alike a b h.1, isInlineTree_of_alike as bs h.2]
end

theorem attrs_isEmpty_of_alike {s t : Tag} (h : s.Alike t) : s.attrs.isEmpty = t.attrs.isEmpty := by
  rw [Bool.eq_iff_iff, List.isEmpty_iff, List.isEmpty_iff, List.eq_nil_iff_forall_not_mem,
    List.eq_nil_iff_forall_not_mem]
  constructor
  · intro hno b hb
    obtain ⟨a, ha, -⟩ := h.known b hb
    exact hno a (Tag.mem_of_attr? ha).1
  · intro hno a ha
    obtain ⟨b, hb, -⟩ := h.found a ha
    exact hno b (Tag.mem_of_attr? hb).1

theorem isListItem_of_alike (a b : Node) (h : Alike a b) : isListItem a = isListItem b := by
  cases a <;> cases b <;> try first | rfl | exact h.elim
  rw [isListItem, isListItem, attrs_isEmpty_of_alike h.1, h.1.name, isInlineTree_of_alike _ _ h.2]

theorem isBlock_of_alike (a b : Node) (h : Alike a b) : isBlock a = isBlock b := by
  cases a <;> cases b <;> try first | rfl | exact h.elim
  next s cs t ds =>
    have hitems := h.2.filter (p := fun n => !n.isBlankText) fun a b hab => by rw [hab.isBlankText]
    have hnone := hitems.isEmpty_eq
    have hall := hitems.all_eq isListItem_of_alike
    simp only [isBlock, hasAllowedAttributes_of_alike h.1, h.1.name, isInlineTree_of_alike _ _ h.2,
      h.2.isEmpty_eq, hnone, hall]

end Markdown

end Stencil
