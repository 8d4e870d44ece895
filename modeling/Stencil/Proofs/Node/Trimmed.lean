import Stencil.Proofs.Node.Fill

namespace Stencil

def Attribute.Suits (record : Fields) : Attribute → Prop
  | .slot _ r => ∃ v, record.lookup r.key = some (.text v)
  | .optional _ r => record.lookup r.key = some .null ∨ ∃ v, record.lookup r.key = some (.text v)
  | _ => True

namespace Node

mutual
def Suits (record : Fields) : Node → Prop
  | slot _ r => ∃ v, record.lookup r.key = some (.text v)
  | block _ r t => record.lookup r.key = some .null ∨
      record.lookup r.key = some (.bool true) ∧ slots [t] = [] ∨
      ∃ own, record.lookup r.key = some (.map own) ∧ (∀ k, k ∈ Assoc.keys own ↔ k ∈ slots [t]) ∧ Suits own t
  | element t cs => (∀ a ∈ t.attrs, a.Suits record) ∧ SuitsList record cs
  | _ => True

def SuitsList (record : Fields) : List Node → Prop
  | [] => True
  | n :: rest => Suits record n ∧ SuitsList record rest
end

mutual
def trimmed : Node → List Node
  | literal .text v => if Text.strip v = "" then [] else [text (Text.strip v)]
  | literal .comment _ => []
  | literal .doctype _ => []
  | element t cs => [element t (trimmedList cs)]
  | n => [n]

def trimmedList : List Node → List Node
  | [] => []
  | n :: rest => trimmed n ++ trimmedList rest
end

theorem trimmedList_append (as bs : List Node) : trimmedList (as ++ bs) = trimmedList as ++ trimmedList bs := by
  induction as with
  | nil => rfl
  | cons a as ih => rw [List.cons_append, trimmedList, ih, trimmedList, List.append_assoc]

theorem suitsList_append {record : Fields} {as bs : List Node} :
    SuitsList record (as ++ bs) ↔ SuitsList record as ∧ SuitsList record bs := by
  induction as with
  | nil => simp [SuitsList]
  | cons a as ih => rw [List.cons_append, SuitsList, ih, SuitsList, and_assoc]

theorem suits_of_reference?_none {record : Fields} {a : Attribute} (h : a.reference? = none) : a.Suits record := by
  cases a <;> trivial

mutual
theorem suits_of_own_nil {record : Fields} : (n : Node) → n.ownReferences = [] → n.Suits record
  | literal .., _ => trivial
  | content, _ => trivial
  | foreign, _ => trivial
  | element t cs, h => by
    obtain ⟨hattrs, hcs⟩ := List.append_eq_nil_iff.mp h
    exact ⟨fun a ha => suits_of_reference?_none (List.filterMap_eq_nil_iff.mp hattrs a ha),
      suitsList_of_own_nil cs hcs⟩

theorem suitsList_of_own_nil {record : Fields} : (ns : List Node) → ownReferencesOfList ns = [] → SuitsList record ns
  | [], _ => trivial
  | n :: ns, h => by
    obtain ⟨hn, hns⟩ := List.append_eq_nil_iff.mp h
    exact ⟨suits_of_own_nil n hn, suitsList_of_own_nil ns hns⟩
end

section Filling

variable {fields record : Fields}

theorem fill_attribute_congr {a : Attribute} (h : ∀ r, a.reference? = some r → fields.lookup r.key = record.lookup r.key) :
    a.fill fields = a.fill record := by
  cases a with
  | slot n r => simp only [Attribute.fill, h r rfl]
  | optional n r => simp only [Attribute.fill, h r rfl]
  | _ => rfl

mutual
theorem fill_congr : (n : Node) → (∀ r ∈ n.ownReferences, fields.lookup r.key = record.lookup r.key) →
    n.fill fields = n.fill record
  | literal .., _ => rfl
  | content, _ => rfl
  | foreign, _ => rfl
  | slot k r, h => by
    cases k <;> simp only [fill, h r (List.mem_singleton_self r)]
  | block k r t, h => by
    cases k <;> simp only [fill, h r (List.mem_singleton_self r)]
  | element t cs, h => by
    have hattrs : t.attrs.flatMap (Attribute.fill fields) = t.attrs.flatMap (Attribute.fill record) :=
      List.flatMap_congr fun a ha => fill_attribute_congr fun r hr =>
        h r (List.mem_append_left _ (List.mem_filterMap.mpr ⟨a, ha, hr⟩))
    rw [fill, fill, hattrs, fillList_congr_own cs fun r hr => h r (List.mem_append_right _ hr)]

theorem fillList_congr_own : (ns : List Node) →
    (∀ r ∈ ownReferencesOfList ns, fields.lookup r.key = record.lookup r.key) → fillList fields ns = fillList record ns
  | [], _ => rfl
  | n :: ns, h => by
    rw [fillList, fillList, fill_congr n fun r hr => h r (List.mem_append_left _ hr),
      fillList_congr_own ns fun r hr => h r (List.mem_append_right _ hr)]
end

theorem fillList_congr {ns : List Node} (h : ∀ k ∈ slots ns, fields.lookup k = record.lookup k) :
    fillList fields ns = fillList record ns :=
  fillList_congr_own ns fun _ hr => h _ (List.mem_map_of_mem hr)

theorem trimmedList_fill_slot {r : Reference} {v : String} (h : fields.lookup r.key = some (.text (Text.strip v))) :
    trimmedList (fillList fields [slot .plain r]) = trimmedList [text v] := by
  simp only [fillList, fill, h, List.append_nil, trimmedList, trimmed]
  split
  · rfl
  · next hne => simp [trimmedList, trimmed, Text.strip_strip, hne]

theorem fillList_slot_empty {r : Reference} (h : fields.lookup r.key = some (.text "")) :
    fillList fields [slot .plain r] = [] := by
  simp [fillList, fill, h]

theorem fillList_block_null {r : Reference} {t : Node} (h : fields.lookup r.key = some .null) :
    fillList fields [block .conditional r t] = [] := by
  simp [fillList, fill, h]

theorem fillList_block_true {r : Reference} {t : Node} (h : fields.lookup r.key = some (.bool true)) :
    fillList fields [block .conditional r t] = fillList [] [t] := by
  simp [fillList, fill, h]

theorem fillList_block_map {r : Reference} {t : Node} {own : Fields} (h : fields.lookup r.key = some (.map own)) :
    fillList fields [block .conditional r t] = fillList own [t] := by
  simp [fillList, fill, h]

end Filling

end Node

end Stencil
