import Mathlib.Data.List.Basic
import Stencil.Merge.Loop
import Stencil.Proofs.Key

namespace Stencil

namespace Reference

def Inside (chain : Scope) (r : Reference) : Prop :=
  ∃ k rest, r = chain ++ k :: rest

def Direct (chain : Scope) (r : Reference) : Prop :=
  ∃ k, r = chain ++ [k]

def Own (chain : Scope) (r : Reference) : Prop :=
  ∃ k, Key.Normal k ∧ r = chain ++ [k]

theorem Own.direct {chain : Scope} {r : Reference} (h : Own chain r) : Direct chain r := by
  obtain ⟨k, -, rfl⟩ := h
  exact ⟨k, rfl⟩

theorem Direct.inside {chain : Scope} {r : Reference} (h : Direct chain r) : Inside chain r := by
  obtain ⟨k, rfl⟩ := h
  exact ⟨k, [], rfl⟩

theorem Inside.widen {chain inner : Scope} {r : Reference} (hc : chain <+: inner)
    (h : Inside inner r) : Inside chain r := by
  obtain ⟨more, rfl⟩ := hc
  obtain ⟨k, rest, rfl⟩ := h
  cases more with
  | nil => exact ⟨k, rest, by simp⟩
  | cons j more => exact ⟨j, more ++ k :: rest, by simp⟩

theorem insertKey_append (chain : Scope) (key : String) (rest : List String) :
    insertKey chain.length key (chain ++ rest) = chain ++ [key] ++ rest := by
  simp [insertKey]

theorem Inside.insertKey {chain inner : Scope} {r : Reference} (key : String)
    (hc : chain <+: inner) (h : Inside chain r) : Inside chain (r.insertKey inner.length key) := by
  obtain ⟨more, rfl⟩ := hc
  obtain ⟨k, rest, rfl⟩ := h
  have he : Reference.insertKey (chain ++ more).length key (chain ++ k :: rest) =
      chain ++ ((k :: rest).take more.length ++ key :: (k :: rest).drop more.length) := by
    rw [Reference.insertKey, List.length_append, List.take_length_add_append,
      List.drop_length_add_append]
    simp
  rw [he]
  cases htake : (k :: rest).take more.length ++ key :: (k :: rest).drop more.length with
  | nil => simp at htake
  | cons j tail => exact ⟨j, tail, rfl⟩

theorem Inside.insertKey_below {chain more : Scope} {r : Reference} (key : String)
    (h : Inside (chain ++ more) r) :
    Inside (chain ++ [key] ++ more) (r.insertKey chain.length key) := by
  obtain ⟨k, rest, rfl⟩ := h
  exact ⟨k, rest, by rw [List.append_assoc, insertKey_append, List.append_assoc _ more]⟩

theorem Direct.insertKey {chain more : Scope} {r : Reference} (key : String)
    (h : Direct (chain ++ more) r) :
    Direct (chain ++ [key] ++ more) (r.insertKey chain.length key) := by
  obtain ⟨k, rfl⟩ := h
  exact ⟨k, by rw [List.append_assoc, insertKey_append, List.append_assoc _ more]⟩

theorem Own.insertKey {chain more : Scope} {r : Reference} (key : String)
    (h : Own (chain ++ more) r) : Own (chain ++ [key] ++ more) (r.insertKey chain.length key) := by
  obtain ⟨k, hk, rfl⟩ := h
  exact ⟨k, hk, by rw [List.append_assoc, insertKey_append, List.append_assoc _ more]⟩

@[simp]
theorem key_append (chain : Scope) (k : String) : Reference.key (chain ++ [k]) = k := by
  simp [Reference.key]

theorem Inside.split_insertKey {chain : Scope} {r : Reference} (key : String) (h : Inside chain r) :
    (r.insertKey chain.length key).key = r.key ∧
      (r.insertKey chain.length key).dropLast =
        Reference.insertKey chain.length key r.dropLast := by
  obtain ⟨k, rest, rfl⟩ := h
  obtain ⟨init, last, hlast⟩ := (List.eq_nil_or_concat (k :: rest)).resolve_left (List.cons_ne_nil _ _)
  rw [List.concat_eq_append] at hlast
  have hold : chain ++ k :: rest = chain ++ init ++ [last] := by rw [hlast, List.append_assoc]
  have hnew : chain ++ [key] ++ (k :: rest) = chain ++ [key] ++ init ++ [last] := by
    rw [hlast, List.append_assoc _ init]
  rw [insertKey_append, hnew, hold, key_append, key_append, List.dropLast_concat, List.dropLast_concat,
    insertKey_append]
  exact ⟨rfl, rfl⟩

end Reference

namespace Node

theorem referencesOfList_eq (ns : List Node) : referencesOfList ns = ns.flatMap references := by
  induction ns with
  | nil => rfl
  | cons n ns ih => rw [referencesOfList, ih, List.flatMap_cons]

theorem mem_referencesOfList {ns : List Node} {r : Reference} :
    r ∈ referencesOfList ns ↔ ∃ n ∈ ns, r ∈ n.references := by
  rw [referencesOfList_eq, List.mem_flatMap]

theorem referencesOfList_append (as bs : List Node) :
    referencesOfList (as ++ bs) = referencesOfList as ++ referencesOfList bs := by
  simp only [referencesOfList_eq, List.flatMap_append]

theorem references_of_isFixed {attrs : List Attribute} (h : ∀ a ∈ attrs, a.isFixed = true) :
    attrs.filterMap Attribute.reference? = [] := by
  rw [List.filterMap_eq_nil_iff]
  intro a ha
  have hfixed : a.isFixed = true := h a ha
  cases a with
  | fixed => rfl
  | _ => simp [Attribute.isFixed] at hfixed

theorem reference?_insertKey (depth : Nat) (key : String) (a : Attribute) :
    (a.insertKey depth key).reference? = a.reference?.map (Reference.insertKey depth key) := by
  cases a <;> rfl

theorem filterMap_insertKey (depth : Nat) (key : String) (attrs : List Attribute) :
    (attrs.map (Attribute.insertKey depth key)).filterMap Attribute.reference? =
      (attrs.filterMap Attribute.reference?).map (Reference.insertKey depth key) := by
  simp only [List.filterMap_map, List.map_filterMap, Function.comp_def, reference?_insertKey]

mutual
theorem references_insertKey (depth : Nat) (key : String) :
    (n : Node) → (n.insertKey depth key).references = n.references.map (Reference.insertKey depth key)
  | literal .. => rfl
  | slot .. => rfl
  | content => rfl
  | foreign => rfl
  | block _ r t => by
    rw [insertKey, references, references, references_insertKey depth key t, List.map_cons]
  | element t cs => by
    rw [insertKey, references, references, filterMap_insertKey,
      referencesOfList_insertKeys depth key cs, List.map_append]

theorem referencesOfList_insertKeys (depth : Nat) (key : String) :
    (ns : List Node) → referencesOfList (insertKeys depth key ns) =
      (referencesOfList ns).map (Reference.insertKey depth key)
  | [] => rfl
  | n :: ns => by
    rw [insertKeys, referencesOfList, referencesOfList, references_insertKey depth key n,
      referencesOfList_insertKeys depth key ns, List.map_append]
end

theorem insertKeys_eq (depth : Nat) (key : String) (ns : List Node) :
    insertKeys depth key ns = ns.map (insertKey depth key) := by
  induction ns with
  | nil => rfl
  | cons n ns ih => rw [insertKeys, ih, List.map_cons]

theorem forall_mem_insertKeys {P : Node → Prop} {depth : Nat} {key : String} {ns : List Node} :
    (∀ e ∈ insertKeys depth key ns, P e) ↔ ∀ n ∈ ns, P (n.insertKey depth key) := by
  rw [insertKeys_eq, List.forall_mem_map]

theorem insertKeys_append (depth : Nat) (key : String) (as bs : List Node) :
    insertKeys depth key (as ++ bs) = insertKeys depth key as ++ insertKeys depth key bs := by
  simp only [insertKeys_eq, List.map_append]

mutual
theorem insertKey_of_references_nil (depth : Nat) (key : String) :
    (n : Node) → n.references = [] → n.insertKey depth key = n
  | literal .., _ => rfl
  | slot .., h => by simp [references] at h
  | content, _ => rfl
  | foreign, _ => rfl
  | block .., h => by simp [references] at h
  | element t cs, h => by
    obtain ⟨ha, hcs⟩ := List.append_eq_nil_iff.mp h
    have hattrs : t.attrs.map (Attribute.insertKey depth key) = t.attrs.map id := by
      apply List.map_congr_left
      intro a hmem
      have hno := List.filterMap_eq_nil_iff.mp ha a hmem
      cases a <;> first | rfl | simp [Attribute.reference?] at hno
    rw [insertKey, hattrs, List.map_id, insertKeys_of_references_nil depth key cs hcs]

theorem insertKeys_of_references_nil (depth : Nat) (key : String) :
    (ns : List Node) → referencesOfList ns = [] → insertKeys depth key ns = ns
  | [], _ => rfl
  | n :: ns, h => by
    obtain ⟨hn, hns⟩ := List.append_eq_nil_iff.mp h
    rw [insertKeys, insertKey_of_references_nil depth key n hn,
      insertKeys_of_references_nil depth key ns hns]
end

mutual
def hasBlock : Node → Bool
  | element _ cs => anyBlock cs
  | block .. => true
  | _ => false

def anyBlock : List Node → Bool
  | [] => false
  | n :: rest => hasBlock n || anyBlock rest
end

theorem anyBlock_eq (ns : List Node) : anyBlock ns = ns.any hasBlock := by
  induction ns with
  | nil => rfl
  | cons n ns ih => rw [anyBlock, ih, List.any_cons]

theorem anyBlock_append (as bs : List Node) :
    anyBlock (as ++ bs) = (anyBlock as || anyBlock bs) := by
  simp only [anyBlock_eq, List.any_append]

mutual
theorem hasBlock_insertKey (depth : Nat) (key : String) :
    (n : Node) → (n.insertKey depth key).hasBlock = n.hasBlock
  | literal .. => rfl
  | slot .. => rfl
  | content => rfl
  | foreign => rfl
  | block .. => rfl
  | element _ cs => anyBlock_insertKeys depth key cs

theorem anyBlock_insertKeys (depth : Nat) (key : String) :
    (ns : List Node) → anyBlock (insertKeys depth key ns) = anyBlock ns
  | [] => rfl
  | n :: ns => by
    rw [insertKeys, anyBlock, anyBlock, hasBlock_insertKey depth key n, anyBlock_insertKeys depth key ns]
end

def Flat (chain : Scope) (n : Node) : Prop :=
  n.hasBlock = false → ∀ r ∈ n.references, r.Direct chain

structure Within (chain : Scope) (n : Node) : Prop where
  inside : ∀ r ∈ n.references, r.Inside chain
  flat : n.Flat chain

theorem Within.of_references_nil {chain : Scope} {n : Node} (h : n.references = []) :
    n.Within chain :=
  ⟨by simp [h], fun _ => by simp [h]⟩

theorem Within.insertKey {chain more : Scope} {n : Node} (key : String)
    (h : n.Within (chain ++ more)) :
    (n.insertKey chain.length key).Within (chain ++ [key] ++ more) where
  inside r hr := by
    rw [references_insertKey, List.mem_map] at hr
    obtain ⟨q, hq, rfl⟩ := hr
    exact (h.inside q hq).insertKey_below key
  flat hb r hr := by
    rw [hasBlock_insertKey] at hb
    rw [references_insertKey, List.mem_map] at hr
    obtain ⟨q, hq, rfl⟩ := hr
    exact (h.flat hb q hq).insertKey key

mutual
def Proper : Node → Prop
  | element t cs => (t.attrs.map Attribute.name).Nodup ∧ ProperList cs
  | block _ _ t => Proper t
  | _ => True

def ProperList : List Node → Prop
  | [] => True
  | n :: rest => Proper n ∧ ProperList rest
end

theorem proper_of_block {kind : BlockKind} {r : Reference} {template : Node}
    (h : (block kind r template).Proper) : template.Proper := h

theorem Proper.core : (n : Node) → n.Proper → n.core.Proper
  | block _ _ t, h => Proper.core t h
  | element .., h => h
  | literal .., h => h
  | slot .., h => h
  | content, h => h
  | foreign, h => h

theorem properList_iff {ns : List Node} : ProperList ns ↔ ∀ n ∈ ns, n.Proper := by
  induction ns with
  | nil => simp [ProperList]
  | cons n ns ih => rw [ProperList, ih, List.forall_mem_cons]

theorem name_insertKey (depth : Nat) (key : String) (a : Attribute) :
    (a.insertKey depth key).name = a.name := by
  cases a <;> rfl

theorem names_insertKey (depth : Nat) (key : String) (attrs : List Attribute) :
    (attrs.map (Attribute.insertKey depth key)).map Attribute.name = attrs.map Attribute.name := by
  simp only [List.map_map, Function.comp_def, name_insertKey]

mutual
theorem proper_insertKey (depth : Nat) (key : String) :
    (n : Node) → n.Proper → (n.insertKey depth key).Proper
  | literal .., _ => trivial
  | slot .., _ => trivial
  | content, _ => trivial
  | foreign, _ => trivial
  | block _ _ t, h => proper_insertKey depth key t h
  | element t cs, h => by
    refine ⟨?_, properList_insertKeys depth key cs h.2⟩
    rw [names_insertKey]
    exact h.1

theorem properList_insertKeys (depth : Nat) (key : String) :
    (ns : List Node) → ProperList ns → ProperList (insertKeys depth key ns)
  | [], _ => trivial
  | n :: ns, h => ⟨proper_insertKey depth key n h.1, properList_insertKeys depth key ns h.2⟩
end

end Node

end Stencil
