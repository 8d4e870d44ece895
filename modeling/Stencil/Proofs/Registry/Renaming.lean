import Mathlib
import Stencil.Proofs.Collection.Renaming
import Stencil.Proofs.Registry.Naming

/-!
Renaming keeps what a record says. Places in a record are paths of keys and list positions; when every key has
a name of its own, renaming moves each place to another one and merges no two of them.
-/

namespace Stencil

namespace Assoc

variable {κ ι β γ : Type} [BEq κ] [LawfulBEq κ] [BEq ι] [LawfulBEq ι]

theorem mem_keys_of_lookup {k : κ} {v : β} {entries : List (κ × β)} (h : entries.lookup k = some v) :
    k ∈ keys entries :=
  lookup_isSome_iff.mp (by rw [h]; rfl)

theorem lookup_map_iff {f : κ → ι} {g : κ → β → γ} {entries : List (κ × β)}
    (hinj : ∀ j ∈ keys entries, ∀ k ∈ keys entries, f j = f k → j = k) {i : ι} {w : γ} :
    (entries.map fun e => (f e.1, g e.1 e.2)).lookup i = some w ↔
      ∃ k v, entries.lookup k = some v ∧ f k = i ∧ g k v = w := by
  induction entries with
  | nil => simp
  | cons e entries ih =>
    obtain ⟨j, u⟩ := e
    have hrest := ih fun a ha b hb => hinj a (List.mem_cons_of_mem _ ha) b (List.mem_cons_of_mem _ hb)
    rw [List.map_cons]
    by_cases hi : i = f j
    · subst hi
      constructor
      · intro h
        exact ⟨j, u, by simp, rfl, by simpa using h⟩
      · rintro ⟨k, v, hk, hf, rfl⟩
        have hkj : k = j := hinj k (mem_keys_of_lookup hk) j List.mem_cons_self hf
        subst hkj
        rw [List.lookup_cons_self] at hk ⊢
        cases hk
        rfl
    · rw [lookup_cons_of_ne hi, hrest]
      constructor
      · rintro ⟨k, v, hk, rfl, rfl⟩
        have hkj : k ≠ j := fun h => hi (h ▸ rfl)
        exact ⟨k, v, by rw [lookup_cons_of_ne hkj, hk], rfl, rfl⟩
      · rintro ⟨k, v, hk, rfl, rfl⟩
        have hkj : k ≠ j := fun h => hi (h ▸ rfl)
        rw [lookup_cons_of_ne hkj] at hk
        exact ⟨k, v, hk, rfl, rfl⟩

end Assoc

namespace Value

inductive Step
  | key (k : String)
  | item (i : Nat)
  deriving DecidableEq

abbrev Path := List Step

def child? : Value → Step → Option Value
  | map fields, .key k => fields.lookup k
  | list items, .item i => items[i]?
  | _, _ => none

def at? : Value → Path → Option Value
  | v, [] => some v
  | v, step :: rest => (v.child? step).bind fun child => at? child rest

def Step.keys : Step → List String
  | key k => [k]
  | item _ => []

def keysOf (p : Path) : List String :=
  p.flatMap Step.keys

def IsLeaf : Value → Prop
  | list _ => False
  | map _ => False
  | _ => True

def isList : Value → Bool
  | list _ => true
  | _ => false

theorem keysOf_cons (scope : Scope) (step : Step) (rest : Path) :
    scope ++ keysOf (step :: rest) = scope ++ step.keys ++ keysOf rest := by
  rw [keysOf, List.flatMap_cons, List.append_assoc]
  rfl

theorem at?_cons {v w : Value} {step : Step} {rest : Path} :
    v.at? (step :: rest) = some w ↔ ∃ child, v.child? step = some child ∧ child.at? rest = some w := by
  rw [at?, Option.bind_eq_some_iff]

end Value

namespace NameMap

open Value

variable (names : NameMap)

def name? (scope : Scope) (key : String) : Option String :=
  ((names.lookup scope).getD []).lookup key

def renameStep (scope : Scope) : Step → Step
  | .key k => .key (names.nameOf scope k)
  | .item i => .item i

def renameSteps (scope : Scope) : Path → Path
  | [] => []
  | step :: rest => names.renameStep scope step :: renameSteps (scope ++ step.keys) rest

def NamesPath (scope : Scope) : List String → Prop
  | [] => True
  | key :: rest => (names.name? scope key).isSome ∧ NamesPath (scope ++ [key]) rest

mutual
def Covers (scope : Scope) : Value → Prop
  | .map fields => (Assoc.keys fields).Nodup ∧ CoversFields scope fields
  | .list items => CoversItems scope items
  | _ => True

def CoversItems (scope : Scope) : List Value → Prop
  | [] => True
  | v :: rest => v.isList = false ∧ Covers scope v ∧ CoversItems scope rest

def CoversFields (scope : Scope) : List (String × Value) → Prop
  | [] => True
  | (k, v) :: rest =>
    (names.name? scope k).isSome ∧ Covers (scope ++ [k]) v ∧ CoversFields scope rest
end

variable {names} {scope : Scope}

theorem nameOf_of_name? {key name : String} (h : names.name? scope key = some name) :
    names.nameOf scope key = name := by
  rw [name?] at h
  rw [nameOf, h]
  rfl

theorem OneToOne.nameOf_inj (h : names.OneToOne) {j k : String} (hj : (names.name? scope j).isSome)
    (hk : (names.name? scope k).isSome) (he : names.nameOf scope j = names.nameOf scope k) : j = k := by
  obtain ⟨name, hj⟩ := Option.isSome_iff_exists.mp hj
  obtain ⟨other, hk⟩ := Option.isSome_iff_exists.mp hk
  rw [nameOf_of_name? hj, nameOf_of_name? hk] at he
  subst he
  unfold name? at hj hk
  cases hs : names.lookup scope with
  | none =>
    rw [hs] at hj
    cases hj
  | some scopeNames =>
    rw [hs] at hj hk
    exact h hs hj hk

theorem CoversFields.name? {fields : Fields} (h : names.CoversFields scope fields) :
    ∀ k ∈ Assoc.keys fields, (names.name? scope k).isSome := by
  induction fields with
  | nil => simp
  | cons e fields ih =>
    rw [CoversFields] at h
    intro k hk
    rcases List.mem_cons.mp hk with rfl | hk
    · exact h.1
    · exact ih h.2.2 k hk

theorem CoversFields.lookup {fields : Fields} (h : names.CoversFields scope fields) {k : String}
    {v : Value} (hk : fields.lookup k = some v) : names.Covers (scope ++ [k]) v := by
  induction fields with
  | nil => cases hk
  | cons e fields ih =>
    obtain ⟨j, u⟩ := e
    rw [CoversFields] at h
    by_cases hj : k = j
    · subst hj
      rw [List.lookup_cons_self] at hk
      cases hk
      exact h.2.1
    · rw [Assoc.lookup_cons_of_ne hj] at hk
      exact ih h.2.2 hk

theorem CoversItems.getElem? {items : List Value} (h : names.CoversItems scope items) {i : Nat} {v : Value}
    (hv : items[i]? = some v) : v.isList = false ∧ names.Covers scope v := by
  induction items generalizing i with
  | nil => simp at hv
  | cons item items ih =>
    rw [CoversItems] at h
    cases i with
    | zero =>
      cases hv
      exact ⟨h.1, h.2.1⟩
    | succ i => exact ih h.2.2 hv

theorem Covers.child {v child : Value} {step : Step} (h : names.Covers scope v)
    (hc : v.child? step = some child) : names.Covers (scope ++ step.keys) child := by
  cases v <;> cases step <;> try cases hc
  case list.item items i =>
    rw [Step.keys, List.append_nil]
    rw [Covers] at h
    exact (h.getElem? hc).2
  case map.key fields k =>
    rw [Covers] at h
    exact h.2.lookup hc

theorem renameFields_eq (hnames : names.OneToOne) (acc : Fields) {fields : Fields}
    (hdistinct : (Assoc.keys fields).Nodup) (hnamed : ∀ k ∈ Assoc.keys fields, (names.name? scope k).isSome)
    (hfree : ∀ k ∈ Assoc.keys fields, names.nameOf scope k ∉ Assoc.keys acc) :
    names.renameFields scope acc fields =
      acc ++ fields.map fun e => (names.nameOf scope e.1, names.renameValue (scope ++ [e.1]) e.2) := by
  induction fields generalizing acc with
  | nil => rw [renameFields, List.map_nil, List.append_nil]
  | cons e fields ih =>
    obtain ⟨k, v⟩ := e
    rw [Assoc.keys_cons, List.nodup_cons] at hdistinct
    have hk := hfree k List.mem_cons_self
    rw [renameFields, Assoc.set_of_not_mem hk, ih _ hdistinct.2, List.map_cons, List.append_assoc]
    · rfl
    · intro j hj
      exact hnamed j (List.mem_cons_of_mem _ hj)
    · intro j hj hmem
      rw [Assoc.keys, List.map_append, List.mem_append] at hmem
      rcases hmem with hmem | hmem
      · exact hfree j (List.mem_cons_of_mem _ hj) hmem
      · have hjk : j = k := hnames.nameOf_inj (hnamed j (List.mem_cons_of_mem _ hj))
          (hnamed k List.mem_cons_self) (by simpa using hmem)
        exact hdistinct.1 (hjk ▸ hj)

theorem renameItem_eq {v : Value} (h : v.isList = false) :
    names.renameItem scope v = names.renameValue scope v := by
  cases v <;> first | rfl | cases h

theorem renameItems_getElem? (items : List Value) (i : Nat) :
    (names.renameItems scope items)[i]? = items[i]?.map (names.renameItem scope) := by
  induction items generalizing i with
  | nil => simp [renameItems]
  | cons v items ih =>
    rw [renameItems]
    cases i with
    | zero => rfl
    | succ i => exact ih i

theorem child?_renameValue (hnames : names.OneToOne) {v : Value} (h : names.Covers scope v) {step : Step}
    {w : Value} : (names.renameValue scope v).child? step = some w ↔
      ∃ old child, v.child? old = some child ∧ names.renameStep scope old = step ∧
        names.renameValue (scope ++ old.keys) child = w := by
  cases v with
  | map fields =>
    rw [Covers] at h
    have hfields := renameFields_eq hnames [] h.1 h.2.name? (by simp)
    rw [renameValue, hfields, List.nil_append]
    cases step with
    | item i =>
      constructor
      · intro hw
        cases hw
      · rintro ⟨old, child, hold, hstep, -⟩
        cases old <;> cases hstep
        cases hold
    | key name =>
      have hiff := Assoc.lookup_map_iff (f := names.nameOf scope)
        (g := fun k v => names.renameValue (scope ++ [k]) v) (i := name) (w := w)
        fun j hj k hk => hnames.nameOf_inj (h.2.name? j hj) (h.2.name? k hk)
      rw [child?, hiff]
      constructor
      · rintro ⟨k, v, hk, rfl, rfl⟩
        exact ⟨.key k, v, hk, rfl, rfl⟩
      · rintro ⟨old, child, hold, hstep, rfl⟩
        cases old with
        | key k =>
          cases hstep
          exact ⟨k, child, hold, rfl, rfl⟩
        | item i => cases hstep
  | list items =>
    rw [Covers] at h
    rw [renameValue]
    cases step with
    | key name =>
      constructor
      · intro hw
        cases hw
      · rintro ⟨old, child, hold, hstep, -⟩
        cases old <;> cases hstep
        cases hold
    | item i =>
      rw [child?, renameItems_getElem?, Option.map_eq_some_iff]
      constructor
      · rintro ⟨child, hchild, rfl⟩
        refine ⟨.item i, child, hchild, rfl, ?_⟩
        rw [renameItem_eq (h.getElem? hchild).1, Step.keys, List.append_nil]
      · rintro ⟨old, child, hold, hstep, rfl⟩
        cases old with
        | key k => cases hstep
        | item j =>
          cases hstep
          refine ⟨child, hold, ?_⟩
          rw [renameItem_eq (h.getElem? hold).1, Step.keys, List.append_nil]
  | null | bool _ | int _ | text _ =>
    constructor
    · intro hw
      cases hw
    · rintro ⟨old, child, hold, -, -⟩
      cases hold

theorem renameValue_leaf {v : Value} (h : v.IsLeaf) : names.renameValue scope v = v := by
  cases v <;> first | rfl | cases h

theorem keysOf_renameSteps (p : Path) :
    keysOf (names.renameSteps scope p) = names.renamePath scope (keysOf p) := by
  induction p generalizing scope with
  | nil => rfl
  | cons step rest ih =>
    cases step with
    | key k => exact congrArg (names.nameOf scope k :: ·) ih
    | item i =>
      have hrest : keysOf (names.renameSteps scope rest) = names.renamePath scope (keysOf rest) := ih
      rw [renameSteps, Step.keys, List.append_nil]
      exact hrest

theorem at?_renameValue (hnames : names.OneToOne) {v : Value} (h : names.Covers scope v) {q : Path}
    {w : Value} : (names.renameValue scope v).at? q = some w ↔
      ∃ p old, v.at? p = some old ∧ names.renameSteps scope p = q ∧
        names.renameValue (scope ++ keysOf p) old = w := by
  -- on the renamed path, since it determines the old one
  induction q generalizing scope v with
  | nil =>
    constructor
    · intro hw
      exact ⟨[], v, rfl, rfl, by simpa [at?, keysOf] using hw⟩
    · rintro ⟨p, old, hold, hp, rfl⟩
      cases p with
      | nil =>
        cases hold
        rw [keysOf, List.flatMap_nil, List.append_nil]
        rfl
      | cons step rest => cases hp
  | cons step rest ih =>
    rw [at?_cons]
    constructor
    · rintro ⟨child, hchild, hw⟩
      obtain ⟨old, inner, hinner, rfl, rfl⟩ := (child?_renameValue hnames h).mp hchild
      obtain ⟨p, found, hfound, rfl, rfl⟩ := (ih (h.child hinner)).mp hw
      refine ⟨old :: p, found, at?_cons.mpr ⟨inner, hinner, hfound⟩, rfl, ?_⟩
      rw [keysOf_cons]
    · rintro ⟨p, found, hfound, hp, rfl⟩
      cases p with
      | nil => cases hp
      | cons old p =>
        obtain ⟨inner, hinner, hfound⟩ := at?_cons.mp hfound
        cases hp
        refine ⟨_, (child?_renameValue hnames h).mpr ⟨old, inner, hinner, rfl, rfl⟩,
          (ih (h.child hinner)).mpr ⟨p, found, hfound, rfl, ?_⟩⟩
        rw [keysOf_cons]

theorem Covers.name?_of_child {v child : Value} {k : String} (h : names.Covers scope v)
    (hc : v.child? (.key k) = some child) : (names.name? scope k).isSome := by
  cases v with
  | map fields =>
    rw [Covers] at h
    exact h.2.name? k (Assoc.mem_keys_of_lookup hc)
  | _ => cases hc

theorem renameStep_inj (hnames : names.OneToOne) {v : Value} (h : names.Covers scope v) {step other : Step}
    (hs : (v.child? step).isSome) (ho : (v.child? other).isSome)
    (he : names.renameStep scope step = names.renameStep scope other) : step = other := by
  obtain ⟨child, hs⟩ := Option.isSome_iff_exists.mp hs
  obtain ⟨sibling, ho⟩ := Option.isSome_iff_exists.mp ho
  cases step with
  | item i =>
    cases other with
    | item j => exact he
    | key k => cases he
  | key j =>
    cases other with
    | item i => cases he
    | key k =>
      injection he with he
      rw [hnames.nameOf_inj (h.name?_of_child hs) (h.name?_of_child ho) he]

theorem renameSteps_inj (hnames : names.OneToOne) {v : Value} (h : names.Covers scope v) {p q : Path}
    (hp : (v.at? p).isSome) (hq : (v.at? q).isSome)
    (he : names.renameSteps scope p = names.renameSteps scope q) : p = q := by
  induction p generalizing scope v q with
  | nil =>
    cases q with
    | nil => rfl
    | cons step rest => cases he
  | cons step rest ih =>
    cases q with
    | nil => cases he
    | cons other rest' =>
      obtain ⟨w, hp⟩ := Option.isSome_iff_exists.mp hp
      obtain ⟨w', hq⟩ := Option.isSome_iff_exists.mp hq
      obtain ⟨child, hchild, hp⟩ := at?_cons.mp hp
      obtain ⟨sibling, hsibling, hq⟩ := at?_cons.mp hq
      rw [renameSteps, renameSteps, List.cons.injEq] at he
      have hstep := renameStep_inj hnames h (by rw [hchild]; rfl) (by rw [hsibling]; rfl) he.1
      subst hstep
      rw [hchild] at hsibling
      cases hsibling
      rw [ih (h.child hchild) (by rw [hp]; rfl) (by rw [hq]; rfl) he.2]

theorem renamePath_inj (hnames : names.OneToOne) {keys others : List String}
    (hkeys : names.NamesPath scope keys) (hothers : names.NamesPath scope others)
    (he : names.renamePath scope keys = names.renamePath scope others) : keys = others := by
  induction keys generalizing scope others with
  | nil =>
    cases others with
    | nil => rfl
    | cons k rest => cases he
  | cons j keys ih =>
    cases others with
    | nil => cases he
    | cons k others =>
      rw [renamePath, renamePath, List.cons.injEq] at he
      have hjk := hnames.nameOf_inj hkeys.1 hothers.1 he.1
      subst hjk
      rw [ih hkeys.2 hothers.2 he.2]

theorem Covers.namesPath {v : Value} {p : Path} (h : names.Covers scope v) (hp : (v.at? p).isSome) :
    names.NamesPath scope (keysOf p) := by
  induction p generalizing scope v with
  | nil => trivial
  | cons step rest ih =>
    obtain ⟨w, hp⟩ := Option.isSome_iff_exists.mp hp
    obtain ⟨child, hchild, hp⟩ := at?_cons.mp hp
    have hrest := ih (h.child hchild) (by rw [hp]; rfl)
    cases step with
    | key k => exact ⟨h.name?_of_child hchild, hrest⟩
    | item i =>
      rw [Step.keys, List.append_nil] at hrest
      exact hrest

mutual
theorem references_renameNode :
    (n : Node) → (names.renameNode n).references = n.references.map names.renameReference
  | .literal .. => rfl
  | .slot .. => rfl
  | .content => rfl
  | .foreign => rfl
  | .block k r t => by
    rw [renameNode, Node.references, Node.references, references_renameNode t, List.map_cons]
  | .element t cs => by
    have ha : (t.attrs.map names.renameAttribute).filterMap Attribute.reference? =
        (t.attrs.filterMap Attribute.reference?).map names.renameReference := by
      simp only [List.filterMap_map, List.map_filterMap, Function.comp_def, reference?_renameAttribute]
    rw [renameNode, Node.references, Node.references, ha, references_renameNodes cs, List.map_append]

theorem references_renameNodes : (ns : List Node) →
    Node.referencesOfList (names.renameNodes ns) = (Node.referencesOfList ns).map names.renameReference
  | [] => rfl
  | n :: ns => by
    rw [renameNodes, Node.referencesOfList, Node.referencesOfList, references_renameNode n,
      references_renameNodes ns, List.map_append]
end

end NameMap

open Value in
/-- Records and layouts are renamed alike. -/
theorem Registry.renaming_preserves (r : Registry) (wanted : Scope → String → Bool) (layout : List Node)
    (fields : Fields) (h : (r.displayNames wanted).Covers [] (.map fields)) :
    let names := r.displayNames wanted
    let before := Value.map fields
    let after := Value.map (names.renameRecord [] fields)
    (∀ p v, before.at? p = some v →
      after.at? (names.renameSteps [] p) = some (names.renameValue (keysOf p) v)) ∧
    (∀ p v, before.at? p = some v → v.IsLeaf → after.at? (names.renameSteps [] p) = some v) ∧
    (∀ q, (after.at? q).isSome → ∃! p, (before.at? p).isSome ∧ names.renameSteps [] p = q) ∧
    (∀ p, keysOf (names.renameSteps [] p) = names.renameReference (keysOf p)) ∧
    Node.referencesOfList (names.renameNodes layout) =
      (Node.referencesOfList layout).map names.renameReference ∧
    ∀ reference, names.NamesPath [] reference → ∀ q w,
      keysOf q = names.renameReference reference ∧ after.at? q = some w ↔
        ∃ p v, keysOf p = reference ∧ before.at? p = some v ∧ names.renameSteps [] p = q ∧
          names.renameValue reference v = w := by
  intro names before after
  have hnames : names.OneToOne := displayNames_oneToOne
  have hat := fun q w => NameMap.at?_renameValue hnames h (q := q) (w := w)
  have hkept : ∀ p v, before.at? p = some v →
      after.at? (names.renameSteps [] p) = some (names.renameValue (keysOf p) v) := by
    intro p v hp
    exact (hat _ _).mpr ⟨p, v, hp, rfl, rfl⟩
  refine ⟨hkept, ?_, ?_, fun p => NameMap.keysOf_renameSteps p, NameMap.references_renameNodes layout, ?_⟩
  · intro p v hp hleaf
    rw [hkept p v hp, NameMap.renameValue_leaf hleaf]
  · intro q hq
    obtain ⟨w, hw⟩ := Option.isSome_iff_exists.mp hq
    obtain ⟨p, v, hp, hpq, -⟩ := (hat q w).mp hw
    have hsome : (before.at? p).isSome := by
      rw [hp]
      rfl
    refine ⟨p, ⟨hsome, hpq⟩, ?_⟩
    rintro p' ⟨hp', hpq'⟩
    exact NameMap.renameSteps_inj hnames h hp' hsome (hpq'.trans hpq.symm)
  · intro reference hreference q w
    constructor
    · rintro ⟨hkeys, hw⟩
      obtain ⟨p, v, hp, rfl, rfl⟩ := (hat q w).mp hw
      have hpath := h.namesPath (p := p) (by rw [hp]; rfl)
      rw [NameMap.keysOf_renameSteps] at hkeys
      have hp' := NameMap.renamePath_inj hnames hpath hreference hkeys
      exact ⟨p, v, hp', hp, rfl, by rw [← hp']; rfl⟩
    · rintro ⟨p, v, rfl, hp, rfl, rfl⟩
      exact ⟨NameMap.keysOf_renameSteps p, hkept p v hp⟩

theorem Registry.renaming_preserves_headings :
    let r := (((({} : Registry).record [] "h1" .text (some ⟨"h1", []⟩) none).record [] "h1_1" .text
      (some ⟨"h1", []⟩) none).record [] "ul_items" .items (some ⟨"ul", []⟩) none).record
      ["ul_items"] "li" .text (some ⟨"li", []⟩) none
    let names := r.displayNames fun _ _ => true
    let fields := [("h1", Value.text "Ada"), ("h1_1", .text "Bob"),
      ("ul_items", .list [.map [], .map [("li", .text "Cy")]])]
    names.Covers [] (.map fields) ∧
      (Value.map (names.renameRecord [] fields)).at? [.key "subheading"] = some (.text "Bob") ∧
      (Value.map (names.renameRecord [] fields)).at? [.key "items", .item 1, .key "text"] =
        some (.text "Cy") := by
  intro r names fields
  have hnames : names = [([], [("ul_items", "items"), ("h1", "heading"), ("h1_1", "subheading")]),
      (["ul_items"], [("li", "text")])] := by
    simp only [names, r]
    cbv
  have hcovers : names.Covers [] (.map fields) := by
    rw [hnames]
    refine ⟨by decide, by decide, trivial, by decide, trivial, by decide, ?_, trivial⟩
    exact ⟨rfl, ⟨by decide, trivial⟩, rfl, ⟨by decide, by decide, trivial, trivial⟩, trivial⟩
  have hleaf := (renaming_preserves r (fun _ _ => true) [] fields hcovers).2.1
  have hsecond := hleaf [.key "h1_1"] (.text "Bob") rfl trivial
  have hitem := hleaf [.key "ul_items", .item 1, .key "li"] (.text "Cy") rfl trivial
  have hsteps : names.renameSteps [] [.key "h1_1"] = [.key "subheading"] ∧
      names.renameSteps [] [.key "ul_items", .item 1, .key "li"] =
        [.key "items", .item 1, .key "text"] := by
    rw [hnames]
    decide
  rw [hsteps.1] at hsecond
  rw [hsteps.2] at hitem
  exact ⟨hcovers, hsecond, hitem⟩

end Stencil
