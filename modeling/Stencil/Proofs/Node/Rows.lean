import Stencil.Proofs.Node.Kind
import Stencil.Proofs.Score

namespace Stencil

section Order

variable {κ : Type} [DecidableEq κ] {x y : κ} {xs ys : List κ}

def SameOrder (xs ys : List κ) : Prop :=
  (xs.filter fun x => x ∈ ys) = ys.filter fun y => y ∈ xs

theorem SameOrder.symm (h : SameOrder xs ys) : SameOrder ys xs :=
  Eq.symm h

theorem SameOrder.skip (hx : x ∉ ys) (h : SameOrder (x :: xs) ys) : SameOrder xs ys := by
  have hkeeps : (ys.filter fun y => y ∈ x :: xs) = ys.filter fun y => y ∈ xs := by
    refine List.filter_congr fun y hy => ?_
    have hne : y ≠ x := fun he => hx (he ▸ hy)
    simp [hne]
  rw [SameOrder, List.filter_cons_of_neg (by simpa using hx), hkeeps] at h
  exact h

theorem SameOrder.tails (hx : x ∉ xs) (hy : x ∉ ys) (h : SameOrder (x :: xs) (x :: ys)) : SameOrder xs ys := by
  have hkeeps (as bs : List κ) (ha : x ∉ as) : (as.filter fun a => a ∈ x :: bs) = as.filter fun a => a ∈ bs := by
    refine List.filter_congr fun a hmem => ?_
    have hne : a ≠ x := fun he => ha (he ▸ hmem)
    simp [hne]
  rw [SameOrder, List.filter_cons_of_pos (by simp), List.filter_cons_of_pos (by simp), hkeeps xs ys hx,
    hkeeps ys xs hy] at h
  exact (List.cons.inj h).2

theorem SameOrder.not_crossed (hne : x ≠ y) (hx : x ∈ ys) (hy : y ∈ xs) : ¬ SameOrder (x :: xs) (y :: ys) := by
  intro h
  rw [SameOrder, List.filter_cons_of_pos (by simp [hx]), List.filter_cons_of_pos (by simp [hy])] at h
  exact hne (List.cons.inj h).1

end Order

namespace Node

inductive Distinct : List Node → Prop
  | text (v : String) : Distinct [.text v]
  | elements {ns : List Node} : (∀ n ∈ ns, n.isElement = true) → (elementNames ns).Nodup → Distinct ns

mutual
def Apart : Node → Prop
  | .element t cs => Markdown.flowParents.contains t.name = false ∧
      Markdown.inlineParents.contains t.name = false ∧ t.name ≠ "svg" ∧ Distinct cs ∧ ApartList cs
  | _ => True

def ApartList : List Node → Prop
  | [] => True
  | n :: rest => Apart n ∧ ApartList rest
end

mutual
def InStep : Node → Node → Prop
  | .element s cs, .element t ds => s.name = t.name →
      SameOrder (elementNames cs) (elementNames ds) ∧ InStepAll cs ds
  | _, _ => True

def InStepAll : List Node → List Node → Prop
  | [], _ => True
  | a :: as, bs => (∀ b ∈ bs, InStep a b) ∧ InStepAll as bs
end

structure Row (ns : List Node) : Prop where
  literal : LiteralList ns
  apart : ApartList ns
  distinct : Distinct ns

theorem apartList_iff {ns : List Node} : ApartList ns ↔ ∀ n ∈ ns, Apart n := by
  induction ns with
  | nil => simp [ApartList]
  | cons n ns ih => rw [ApartList, ih, List.forall_mem_cons]

theorem mem_elementNames_iff {name : String} {ns : List Node} :
    name ∈ elementNames ns ↔ ∃ s cs, .element s cs ∈ ns ∧ s.name = name := by
  simp only [elementNames, List.mem_filterMap, Option.map_eq_some_iff]
  constructor
  · rintro ⟨n, hn, s, hs, rfl⟩
    cases n <;> cases hs
    exact ⟨s, _, hn, rfl⟩
  · rintro ⟨s, cs, hmem, rfl⟩
    exact ⟨_, hmem, s, rfl, rfl⟩

theorem mem_elementNames {s : Tag} {cs ns : List Node} (h : .element s cs ∈ ns) : s.name ∈ elementNames ns :=
  mem_elementNames_iff.mpr ⟨s, cs, h, rfl⟩

theorem ne_of_mem_elementNames {s t : Tag} {cs ns : List Node} (hnew : s.name ∉ elementNames ns)
    (h : .element t cs ∈ ns) : s.name ≠ t.name :=
  fun he => hnew (he ▸ mem_elementNames h)

theorem nodup_elementNames_cons {s : Tag} {cs ns : List Node} :
    (elementNames (.element s cs :: ns)).Nodup ↔ s.name ∉ elementNames ns ∧ (elementNames ns).Nodup :=
  List.nodup_cons

namespace Row

variable {a : Node} {as bs : List Node}

theorem tail (h : Row (a :: as)) : Row as where
  literal := h.literal.2
  apart := h.apart.2
  distinct := by
    cases h.distinct with
    | text => exact .elements nofun List.nodup_nil
    | elements helements hnames =>
      exact .elements (fun n hn => helements n (List.mem_cons_of_mem _ hn))
        (hnames.sublist ((List.sublist_cons_self a as).filterMap _))

theorem cases (h : Row as) (ha : a ∈ as) : (∃ v, a = .text v) ∨ ∃ s cs, a = .element s cs := by
  cases h.distinct with
  | text v => exact .inl ⟨v, List.mem_singleton.mp ha⟩
  | elements helements _ =>
    have helement := helements a ha
    cases a <;> first | exact .inr ⟨_, _, rfl⟩ | cases helement

theorem kind_mem_iff (h : Row as) {s : Tag} {cs : List Node} :
    (Node.element s cs).kind ∈ as.map kind ↔ s.name ∈ elementNames as := by
  simp only [List.mem_map, elementNames, List.mem_filterMap, Option.map_eq_some_iff]
  constructor
  · rintro ⟨a, ha, hkind⟩
    rcases h.cases ha with ⟨v, rfl⟩ | ⟨t, ds, rfl⟩
    · cases hkind
    · exact ⟨_, ha, t, rfl, Kind.element.inj hkind⟩
  · rintro ⟨a, ha, t, htag, hname⟩
    rcases h.cases ha with ⟨v, rfl⟩ | ⟨u, ds, rfl⟩
    · cases htag
    · cases htag
      exact ⟨_, ha, congrArg Kind.element hname⟩

theorem kind_not_mem (h : Row (a :: as)) : a.kind ∉ as.map kind := by
  cases hd : h.distinct with
  | text v => exact List.not_mem_nil
  | elements helements hnames =>
    rcases h.cases List.mem_cons_self with ⟨v, rfl⟩ | ⟨s, cs, rfl⟩
    · cases helements _ List.mem_cons_self
    · rw [h.tail.kind_mem_iff]
      exact (List.nodup_cons.mp hnames).1

theorem below (h : Row as) {s : Tag} {cs : List Node} (hmem : .element s cs ∈ as) : Row cs where
  literal := (literalList_iff.mp h.literal _ hmem).2.2
  apart := (apartList_iff.mp h.apart _ hmem).2.2.2.2
  distinct := (apartList_iff.mp h.apart _ hmem).2.2.2.1

theorem names_nodup (h : Row as) : (elementNames as).Nodup := by
  cases h.distinct with
  | text v => exact List.nodup_nil
  | elements _ hnames => exact hnames

end Row

theorem Row.head {a : Node} {as : List Node} (h : Row (a :: as)) : Row [a] where
  literal := ⟨h.literal.1, trivial⟩
  apart := ⟨h.apart.1, trivial⟩
  distinct := by
    cases h.distinct with
    | text v => exact .text v
    | elements helements _ =>
      refine .elements (fun n hn => helements n (List.mem_singleton.mp hn ▸ List.mem_cons_self)) ?_
      cases a <;> first | exact List.nodup_singleton _ | exact List.nodup_nil

theorem inStepAll_iff {as bs : List Node} : InStepAll as bs ↔ ∀ a ∈ as, ∀ b ∈ bs, InStep a b := by
  induction as with
  | nil => simp [InStepAll]
  | cons a as ih => rw [InStepAll, ih, List.forall_mem_cons]

end Node

end Stencil
