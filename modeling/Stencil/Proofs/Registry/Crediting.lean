import Stencil.Proofs.Classes
import Stencil.Proofs.Registry
import Stencil.Registry.Naming

namespace Stencil

structure Leaf where
  scope : Scope
  key : String
  value : Value

namespace Leaf

mutual
def below (scope : Scope) (key : String) : Value → List Leaf
  | .map fields => ofFields (scope ++ [key]) fields
  | .list items => ofItems (scope ++ [key]) items
  | v => [⟨scope, key, v⟩]

def ofItems (scope : Scope) : List Value → List Leaf
  | [] => []
  | v :: rest => ofItem scope v ++ ofItems scope rest

def ofItem (scope : Scope) : Value → List Leaf
  | .map fields => ofFields scope fields
  | _ => []

def ofFields (scope : Scope) : List (String × Value) → List Leaf
  | [] => []
  | (k, v) :: rest => below scope k v ++ ofFields scope rest
end

def valuesAt (scope : Scope) (key : String) (leaves : List Leaf) : List Value :=
  (leaves.filter fun l => l.scope == scope && l.key == key).map Leaf.value

end Leaf

namespace Registry

variable {g : Registry} {scope c : Scope} {key k : String} {e : Entry}

section Entries

variable {entries : List Entry}

theorem find?_putEntry_self (e : Entry) (entries : List Entry) :
    (putEntry e entries).find? (fun f => f.key == e.key) = some e := by
  induction entries with
  | nil => simp [putEntry]
  | cons f entries ih =>
    rw [putEntry]
    split
    · simp
    · next hkey =>
      have hf : (f.key == e.key) = false := by
        rw [BEq.comm]
        exact Bool.not_eq_true _ ▸ hkey
      rw [List.find?_cons, hf]
      exact ih

theorem find?_putEntry_of_ne (h : k ≠ e.key) :
    (putEntry e entries).find? (fun f => f.key == k) = entries.find? fun f => f.key == k := by
  have he : (e.key == k) = false := beq_eq_false_iff_ne.mpr h.symm
  induction entries with
  | nil => simp [putEntry, he]
  | cons f entries ih =>
    rw [putEntry]
    split
    · next hkey =>
      rw [List.find?_cons, List.find?_cons, he, ← eq_of_beq hkey, he]
    · rw [List.find?_cons, List.find?_cons, ih]

theorem entry?_put_self (g : Registry) (scope : Scope) (e : Entry) :
    Registry.entry? (g.put scope e) scope e.key = some e := by
  rw [ entry?, entries_put, if_pos rfl, find?_putEntry_self]

theorem entry?_put_of_ne (h : c ≠ scope ∨ k ≠ e.key) : Registry.entry? (g.put scope e) c k = g.entry? c k := by
  rw [ entry?, entries_put]
  split
  · next hc =>
    subst hc
    rw [find?_putEntry_of_ne (h.resolve_left fun hne => hne rfl), entry?]
  · rfl

end Entries

def gain (values : List Value) (e : Entry) : Entry :=
  { e with values := e.values ++ values }

theorem gain_nil (e : Entry) : gain [] e = e := by
  rw [gain, List.append_nil]

theorem gain_gain (first second : List Value) (e : Entry) :
    gain second (gain first e) = gain (first ++ second) e := by
  rw [gain, gain, gain, List.append_assoc]

def credit (g : Registry) (l : Leaf) : Registry :=
  g.recordValue l.scope l.key l.value

theorem entry?_credit (g : Registry) (l : Leaf) (scope : Scope) (key : String) :
    Registry.entry? (g.credit l) scope key = (g.entry? scope key).map (gain (Leaf.valuesAt scope key [l])) := by
  unfold credit recordValue
  by_cases hplace : l.scope = scope ∧ l.key = key
  · obtain ⟨rfl, rfl⟩ := hplace
    have hvalues : Leaf.valuesAt l.scope l.key [l] = [l.value] := by simp [Leaf.valuesAt]
    rw [hvalues]
    split
    · next hnone => rw [hnone]; rfl
    · next e he =>
      obtain ⟨hkey, -⟩ := entry?_key he
      rw [he, Option.map_some, ← hkey]
      exact entry?_put_self g l.scope (gain [l.value] e)
  · have hvalues : Leaf.valuesAt scope key [l] = [] := by simpa [Leaf.valuesAt] using hplace
    have hkept : (g.entry? scope key).map (gain []) = g.entry? scope key := by
      rw [show gain [] = id from funext gain_nil, Option.map_id_apply]
    rw [hvalues, hkept]
    split
    · rfl
    · next e he =>
      obtain ⟨hkey, -⟩ := entry?_key he
      apply entry?_put_of_ne
      by_contra hsame
      rw [not_or, not_not, not_not] at hsame
      exact hplace ⟨hsame.1.symm, hkey.symm.trans hsame.2.symm⟩

theorem entry?_credits (g : Registry) (leaves : List Leaf) (scope : Scope) (key : String) :
    Registry.entry? (leaves.foldl credit g) scope key =
      (g.entry? scope key).map (gain (Leaf.valuesAt scope key leaves)) := by
  induction leaves generalizing g with
  | nil =>
    rw [List.foldl_nil, Leaf.valuesAt, List.filter_nil, List.map_nil, show gain [] = id from funext gain_nil,
      Option.map_id_apply]
  | cons l leaves ih =>
    have hvalues : Leaf.valuesAt scope key (l :: leaves) =
        Leaf.valuesAt scope key [l] ++ Leaf.valuesAt scope key leaves := by
      rw [Leaf.valuesAt, Leaf.valuesAt, Leaf.valuesAt, ← List.map_append, ← List.filter_append, List.singleton_append]
    rw [List.foldl_cons, ih, entry?_credit, Option.map_map, hvalues]
    exact congrArg (Option.map · _) (funext fun e => gain_gain _ _ e)

section Leaves

mutual
theorem recordAt_eq (scope : Scope) (key : String) (g : Registry) : (v : Value) →
    recordAt scope key g v = (Leaf.below scope key v).foldl credit g
  | .map fields => by
    rw [recordAt, Leaf.below]
    exact recordFields_eq (scope ++ [key]) g fields
  | .list items => by
    rw [recordAt, Leaf.below]
    exact recordItems_eq (scope ++ [key]) g items
  | .null | .bool _ | .int _ | .text _ => by
    rw [recordAt, Leaf.below]
    · rfl
    all_goals simp

theorem recordItems_eq (scope : Scope) (g : Registry) : (items : List Value) →
    recordItems scope g items = (Leaf.ofItems scope items).foldl credit g
  | [] => rfl
  | v :: rest => by
    rw [recordItems, Leaf.ofItems, List.foldl_append, ← recordItem_eq scope g v]
    exact recordItems_eq scope (recordItem scope g v) rest

theorem recordItem_eq (scope : Scope) (g : Registry) : (v : Value) →
    recordItem scope g v = (Leaf.ofItem scope v).foldl credit g
  | .map fields => by
    rw [recordItem, Leaf.ofItem]
    exact recordFields_eq scope g fields
  | .null | .bool _ | .int _ | .text _ | .list _ => by
    rw [recordItem, Leaf.ofItem]
    · rfl
    all_goals simp

theorem recordFields_eq (scope : Scope) (g : Registry) : (fields : List (String × Value)) →
    recordFields scope g fields = (Leaf.ofFields scope fields).foldl credit g
  | [] => rfl
  | (k, v) :: rest => by
    rw [recordFields, Leaf.ofFields, List.foldl_append, ← recordAt_eq scope k g v]
    exact recordFields_eq scope (recordAt scope k g v) rest
end

theorem recordPages_eq (g : Registry) (pages : List Fields) :
    pages.foldl (recordFields []) g = (pages.flatMap (Leaf.ofFields [])).foldl credit g := by
  induction pages generalizing g with
  | nil => rfl
  | cons page pages ih =>
    rw [List.foldl_cons, List.flatMap_cons, List.foldl_append, ih, recordFields_eq]

end Leaves

end Registry

section Stable

variable {e : Entry} {first : List String} {rest : List (List String)}

theorem sublist_shared (first : List String) (rest : List (List String)) :
    (rest.foldl (fun stable classes => stable.filter classes.contains) first).Sublist first := by
  induction rest generalizing first with
  | nil => exact List.Sublist.refl first
  | cons classes rest ih =>
    rw [List.foldl_cons]
    exact (ih _).trans List.filter_sublist

theorem mem_shared {c : String} :
    c ∈ rest.foldl (fun stable classes => stable.filter classes.contains) first ↔
      ∀ classes ∈ first :: rest, c ∈ classes := by
  induction rest generalizing first with
  | nil => simp
  | cons classes rest ih =>
    rw [List.foldl_cons, ih]
    simp [and_assoc]

theorem mem_stableClasses (h : ∃ s, Value.text s ∈ e.values) :
    e.stableClasses.Pairwise (· ≤ ·) ∧ e.stableClasses.Nodup ∧
      ∀ c, c ∈ e.stableClasses ↔ ∀ s, Value.text s ∈ e.values → c ∈ Text.words s := by
  unfold Entry.stableClasses
  dsimp only
  generalize hobserved : e.values.filterMap _ = observed
  have hmem : ∀ classes, classes ∈ observed ↔ ∃ s, Value.text s ∈ e.values ∧ classList (some s) = classes := by
    intro classes
    rw [← hobserved, List.mem_filterMap]
    constructor
    · rintro ⟨v, hv, hclasses⟩
      split at hclasses
      · next s => exact ⟨s, hv, Option.some.inj hclasses⟩
      · cases hclasses
    · rintro ⟨s, hs, hclasses⟩
      exact ⟨.text s, hs, congrArg some hclasses⟩
  obtain ⟨s, hs⟩ := h
  have hsome : classList (some s) ∈ observed := (hmem _).mpr ⟨s, hs, rfl⟩
  cases observed with
  | nil => cases hsome
  | cons first rest =>
    obtain ⟨s, -, hfirst⟩ := (hmem first).mp List.mem_cons_self
    have hsub := sublist_shared first rest
    refine ⟨?_, ?_, fun c => ?_⟩
    · exact (hfirst ▸ classList_pairwise (some s)).sublist hsub
    · exact (hfirst ▸ classList_nodup (some s)).sublist hsub
    · simp only [mem_shared, hmem]
      constructor
      · intro h s hs
        exact mem_classList.mp (h _ ⟨s, hs, rfl⟩)
      · rintro h classes ⟨s, hs, rfl⟩
        exact mem_classList.mpr (h s hs)

end Stable

namespace Registry

/-- After pages were recorded every entry has, behind the values it had before, the leaves of the pages at its place,
in order, and nothing else of it has changed. If it had none before and a text is among those leaves, its stable
classes are the classes that all these texts have, sorted, each of them once. -/
theorem stable_classes_seen (g : Registry) (pages : List Fields) (scope : Scope) (key : String) :
    let seen := pages.flatMap fun page => Leaf.valuesAt scope key (Leaf.ofFields [] page)
    let after := pages.foldl (recordFields []) g
    after.entry? scope key = (g.entry? scope key).map (fun e => { e with values := e.values ++ seen }) ∧
      ∀ e, g.entry? scope key = some e → e.values = [] → (∃ s, Value.text s ∈ seen) →
        ∃ e', after.entry? scope key = some e' ∧ e'.values = seen ∧
          e'.stableClasses.Pairwise (· ≤ ·) ∧ e'.stableClasses.Nodup ∧
            ∀ c, c ∈ e'.stableClasses ↔ ∀ s, Value.text s ∈ seen → c ∈ Text.words s := by
  intro seen after
  have hseen : Leaf.valuesAt scope key (pages.flatMap (Leaf.ofFields [])) = seen := by
    simp only [seen, Leaf.valuesAt, List.filter_flatMap, List.map_flatMap]
  have hafter : after.entry? scope key = (g.entry? scope key).map (gain seen) := by
    rw [← hseen, ← entry?_credits, ← recordPages_eq]
  refine ⟨hafter, fun e he hempty htext => ⟨gain seen e, ?_, ?_, ?_⟩⟩
  · rw [hafter, he, Option.map_some]
  · rw [gain, hempty, List.nil_append]
  · have hvalues : (gain seen e).values = seen := by rw [gain, hempty, List.nil_append]
    have hstable := mem_stableClasses (e := gain seen e) (by rwa [hvalues])
    rwa [hvalues] at hstable

def badges : Registry × List Fields :=
  (({} : Registry).record ["items"] "class" .attr none (some "class"),
    [[("title", .text "New"), ("items", .list [.map [("class", .text "red badge")], .map [("class", .null)]])],
      [("items", .list [.map [("class", .text "badge new red")]])],
      [("items", .list [])]])

theorem stable_classes_seen_badges : ∃ e e', Registry.entry? badges.1 ["items"] "class" = some e ∧ e.values = [] ∧
    Registry.entry? (badges.2.foldl (recordFields []) badges.1) ["items"] "class" = some e' ∧
      e'.values = [.text "red badge", .null, .text "badge new red"] ∧
      "badge" ∈ e'.stableClasses ∧ "red" ∈ e'.stableClasses ∧ "new" ∉ e'.stableClasses := by
  obtain ⟨e', he', hvalues, -, -, hstable⟩ := (stable_classes_seen badges.1 badges.2 ["items"] "class").2
    ⟨"class", .attr, none, some "class", []⟩ rfl rfl ⟨"red badge", List.mem_cons_self⟩
  have hstable (c : String) : c ∈ e'.stableClasses ↔
      ∀ s, Value.text s ∈ [Value.text "red badge", .null, .text "badge new red"] → c ∈ Text.words s := hstable c
  simp only [List.mem_cons, Value.text.injEq, reduceCtorEq, false_or, List.not_mem_nil, or_false, forall_eq_or_imp,
    forall_eq] at hstable
  refine ⟨_, e', rfl, rfl, he', hvalues, ?_, ?_, ?_⟩
  · exact (hstable "badge").mpr (by decide +kernel)
  · exact (hstable "red").mpr (by decide +kernel)
  · rw [hstable]
    decide +kernel

end Registry

end Stencil
