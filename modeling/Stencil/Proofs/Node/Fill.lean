import Stencil.Markdown.Detect
import Stencil.Proofs.Node.Same
import Stencil.Proofs.Text
import Stencil.Score.Basic
import Stencil.Value

namespace Stencil

def Attribute.fill (fields : Fields) : Attribute → List Attribute
  | .slot n r =>
    match fields.lookup r.key with
    | some (.text v) => [.fixed n v]
    | _ => [.slot n r]
  | .optional n r =>
    match fields.lookup r.key with
    | some (.text v) => [.fixed n v]
    | some .null => []
    | _ => [.optional n r]
  | a => [a]

/-- An attribute up to what merging does not tell apart: classes are a set, and boolean attributes have
no value. -/
def Attribute.gist : Attribute → Attribute
  | .fixed n v =>
    if Score.booleanAttributes.contains n then .fixed n ""
    else if n == "class" then .fixed n (" ".intercalate (classList (some v)))
    else .fixed n v
  | a => a

structure Tag.Ordinary (t : Tag) : Prop where
  flow : Markdown.flowParents.contains t.name = false
  inline : Markdown.inlineParents.contains t.name = false
  drawing : t.name ≠ "svg"
  distinct : (t.attrs.map Attribute.name).Nodup

namespace Node

mutual
def fill (fields : Fields) : Node → List Node
  | slot .plain r =>
    match fields.lookup r.key with
    | some (.text v) => if v = "" then [] else [text v]
    | _ => [slot .plain r]
  | block .conditional r t =>
    match fields.lookup r.key with
    | some .null => []
    | some (.map own) => fill own t
    | some (.bool true) => fill [] t
    | _ => [block .conditional r t]
  | element t cs => [element ⟨t.name, t.attrs.flatMap (Attribute.fill fields)⟩ (fillList fields cs)]
  | n => [n]

def fillList (fields : Fields) : List Node → List Node
  | [] => []
  | n :: rest => fill fields n ++ fillList fields rest
end

mutual
def gist : Node → List Node
  | literal .text v => if Text.strip v = "" then [] else [text (Text.strip v)]
  | literal .comment _ => []
  | literal .doctype _ => []
  | element t cs => [element ⟨t.name, t.attrs.map Attribute.gist⟩ (gistList cs)]
  | n => [n]

def gistList : List Node → List Node
  | [] => []
  | n :: rest => gist n ++ gistList rest
end

def elementNames (ns : List Node) : List String :=
  ns.filterMap fun n => n.tag?.map Tag.name

mutual
def Plain : Node → Prop
  | literal k _ => k ≠ .cdata
  | element t cs => t.Ordinary ∧ (∀ a ∈ t.attrs, a.isFixed = true) ∧ PlainList cs ∧
      (elementNames cs).Nodup
  | _ => False

def PlainList : List Node → Prop
  | [] => True
  | n :: rest => Plain n ∧ PlainList rest
end

mutual
def Sheet : Node → Prop
  | literal k _ => k ≠ .cdata
  | element t cs => t.Ordinary ∧ SheetList cs ∧ (elementNames cs).Nodup
  | slot k _ => k = .plain
  | block k _ t => k = .conditional ∧ t.isElement = true ∧ Sheet t ∧ (slots [t]).Nodup
  | _ => False

def SheetList : List Node → Prop
  | [] => True
  | n :: rest => Sheet n ∧ SheetList rest
end

theorem fillList_append (fields : Fields) (as bs : List Node) :
    fillList fields (as ++ bs) = fillList fields as ++ fillList fields bs := by
  induction as with
  | nil => rfl
  | cons a as ih => rw [List.cons_append, fillList, ih, fillList, List.append_assoc]

theorem gistList_append (as bs : List Node) : gistList (as ++ bs) = gistList as ++ gistList bs := by
  induction as with
  | nil => rfl
  | cons a as ih => rw [List.cons_append, gistList, ih, gistList, List.append_assoc]

theorem elementNames_append (as bs : List Node) :
    elementNames (as ++ bs) = elementNames as ++ elementNames bs :=
  List.filterMap_append ..

theorem sheetList_append {as bs : List Node} :
    SheetList (as ++ bs) ↔ SheetList as ∧ SheetList bs := by
  induction as with
  | nil => simp [SheetList]
  | cons a as ih => rw [List.cons_append, SheetList, ih, SheetList, and_assoc]

mutual
theorem Plain.references : (n : Node) → n.Plain → n.references = []
  | literal .., _ => rfl
  | element _ cs, h => by
    rw [Node.references, references_of_isFixed h.2.1, PlainList.references cs h.2.2.1, List.append_nil]

theorem PlainList.references : (ns : List Node) → PlainList ns → referencesOfList ns = []
  | [], _ => rfl
  | n :: ns, h => by
    rw [referencesOfList, Plain.references n h.1, PlainList.references ns h.2, List.append_nil]
end

mutual
theorem Plain.sheet : (n : Node) → n.Plain → n.Sheet
  | literal .., h => h
  | element _ cs, h => ⟨h.1, PlainList.sheet cs h.2.2.1, h.2.2.2⟩

theorem PlainList.sheet : (ns : List Node) → PlainList ns → SheetList ns
  | [], _ => trivial
  | n :: ns, h => ⟨Plain.sheet n h.1, PlainList.sheet ns h.2⟩
end

theorem slots_insertKey {chain : Scope} {n : Node} (key : String)
    (h : ∀ r ∈ n.references, r.Inside chain) : slots [n.insertKey chain.length key] = slots [n] := by
  simp only [slots, ownReferencesOfList, List.append_nil, ownReferences_insertKey, List.map_map]
  exact List.map_congr_left fun r hr =>
    ((h r (ownReferences_subset n hr)).split_insertKey key).1

theorem elementNames_insertKeys (depth : Nat) (key : String) (ns : List Node) :
    elementNames (insertKeys depth key ns) = elementNames ns := by
  have htag (n : Node) : (n.insertKey depth key).tag?.map Tag.name = n.tag?.map Tag.name := by
    cases n <;> rfl
  simp only [elementNames, insertKeys_eq, List.filterMap_map, Function.comp_def, htag]

mutual
theorem Sheet.insertKey {chain : Scope} (key : String) : (n : Node) →
    (∀ r ∈ n.references, r.Inside chain) → n.Sheet → (n.insertKey chain.length key).Sheet
  | literal .., _, h => h
  | slot .., _, h => h
  | content, _, h => h
  | foreign, _, h => h
  | block _ r t, hr, h => by
    obtain ⟨hkind, helement, hsheet, hnodup⟩ := h
    have hin : ∀ q ∈ t.references, q.Inside chain := fun q hq => hr q (List.mem_cons_of_mem _ hq)
    refine ⟨hkind, ?_, Sheet.insertKey key t hin hsheet, ?_⟩
    · cases t <;> first | rfl | cases helement
    · rwa [slots_insertKey key hin]
  | element tag cs, hr, ⟨htag, hcs, hnames⟩ => by
    have hin : ∀ q ∈ referencesOfList cs, q.Inside chain := fun q hq =>
      hr q (List.mem_append_right _ hq)
    refine ⟨⟨htag.flow, htag.inline, htag.drawing, ?_⟩, SheetList.insertKeys key cs hin hcs, ?_⟩
    · rw [names_insertKey]
      exact htag.distinct
    · rwa [elementNames_insertKeys]

theorem SheetList.insertKeys {chain : Scope} (key : String) : (ns : List Node) →
    (∀ r ∈ referencesOfList ns, r.Inside chain) → SheetList ns →
    SheetList (insertKeys chain.length key ns)
  | [], _, h => h
  | n :: ns, hr, h =>
    ⟨Sheet.insertKey key n (fun q hq => hr q (List.mem_append_left _ hq)) h.1,
      SheetList.insertKeys key ns (fun q hq => hr q (List.mem_append_right _ hq)) h.2⟩
end

theorem fill_of_isFixed {fields : Fields} {attrs : List Attribute}
    (h : ∀ a ∈ attrs, a.isFixed = true) : attrs.flatMap (Attribute.fill fields) = attrs := by
  induction attrs with
  | nil => rfl
  | cons a attrs ih =>
    rw [List.flatMap_cons, ih fun b hb => h b (List.mem_cons_of_mem _ hb)]
    have ha := h a (List.mem_cons_self ..)
    cases a with
    | fixed n v => rfl
    | _ => cases ha

mutual
theorem Plain.fill (fields : Fields) : (n : Node) → n.Plain → n.fill fields = [n]
  | literal .., _ => rfl
  | element _ cs, h => by
    rw [Node.fill, fill_of_isFixed h.2.1, PlainList.fill fields cs h.2.2.1]

theorem PlainList.fill (fields : Fields) : (ns : List Node) → PlainList ns → fillList fields ns = ns
  | [], _ => rfl
  | n :: ns, h => by
    rw [fillList, Plain.fill fields n h.1, PlainList.fill fields ns h.2, List.singleton_append]
end

theorem name_gist (a : Attribute) : a.gist.name = a.name := by
  cases a with
  | fixed n v =>
    unfold Attribute.gist
    dsimp only
    split
    · rfl
    · split <;> rfl
  | _ => rfl

theorem names_gist (attrs : List Attribute) :
    (attrs.map Attribute.gist).map Attribute.name = attrs.map Attribute.name := by
  simp only [List.map_map, Function.comp_def, name_gist]

mutual
theorem Plain.proper_gist : (n : Node) → n.Plain → ProperList n.gist
  | literal .text v, _ => by
    rw [gist]
    split <;> trivial
  | literal .comment _, _ => trivial
  | literal .doctype _, _ => trivial
  | literal .cdata _, h => absurd rfl h
  | element t cs, h =>
    ⟨⟨by rw [names_gist]; exact h.1.distinct, PlainList.proper_gist cs h.2.2.1⟩, trivial⟩

theorem PlainList.proper_gist : (ns : List Node) → PlainList ns → ProperList (gistList ns)
  | [], _ => trivial
  | n :: ns, h => by
    rw [gistList]
    refine properList_iff.mpr fun m hm => ?_
    rcases List.mem_append.mp hm with hm | hm
    · exact properList_iff.mp (Plain.proper_gist n h.1) m hm
    · exact properList_iff.mp (PlainList.proper_gist ns h.2) m hm
end

def ReadsBack (layout page : List Node) (fields : Fields) : Prop :=
  sameList (gistList (fillList fields layout)) (gistList page) = true

theorem ReadsBack.append {layout layout' page page' : List Node} {fields : Fields}
    (h : ReadsBack layout page fields) (h' : ReadsBack layout' page' fields) :
    ReadsBack (layout ++ layout') (page ++ page') fields := by
  unfold ReadsBack
  rw [fillList_append, gistList_append, gistList_append]
  exact sameList_append h h'

end Node

end Stencil
