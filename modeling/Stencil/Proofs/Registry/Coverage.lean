import Stencil.Proofs.Registry.Learning
import Stencil.Proofs.Registry.Renaming

namespace Stencil

namespace Registry

variable {g : Registry} {wanted : Scope → String → Bool} {names : NameMap} {scope : Scope}
  {key : String}

theorem grows_put (g : Registry) (scope : Scope) (e : Entry) : Grows g (g.put scope e) :=
  fun _ _ hk => mem_keys_put.mpr (.inr hk)

theorem grows_recordValue (g : Registry) (scope : Scope) (key : String) (v : Value) :
    Grows g (g.recordValue scope key v) := by
  unfold recordValue
  split
  · exact .refl g
  · exact grows_put g scope _

theorem grows_recordFields (scope : Scope) (g : Registry) (fields : List (String × Value)) :
    Grows g (recordFields scope g fields) :=
  recordFields_preserves (fun g' c k v h => h.trans (grows_recordValue g' c k v)) scope (.refl g) fields

theorem grows_records (records : List Fields) (g : Registry) :
    Grows g (records.foldl (recordFields []) g) := by
  induction records generalizing g with
  | nil => exact .refl g
  | cons fields records ih => exact (grows_recordFields [] g fields).trans (ih _)

theorem mem_keys_scopeNames {nested : Bool} {above : Option String} {entries : List Entry} {e : Entry}
    (he : e ∈ entries) : e.key ∈ Assoc.keys (scopeNames nested above entries) := by
  have ranked (f : List (String × String) → Entry × List String → List (String × String))
      (hkeep : ∀ names p, e.key ∈ Assoc.keys names → e.key ∈ Assoc.keys (f names p))
      (hadd : ∀ names candidates, e.key ∈ Assoc.keys (f names (e, candidates)))
      (more : List (Entry × List String)) (names : List (String × String))
      (h : e.key ∈ Assoc.keys names ∨ ∃ candidates, (e, candidates) ∈ more) :
      e.key ∈ Assoc.keys (more.foldl f names) := by
    induction more generalizing names with
    | nil => simpa using h
    | cons next more ih =>
      apply ih
      rcases h with h | ⟨candidates, h⟩
      · exact .inl (hkeep names next h)
      · rcases List.mem_cons.mp h with rfl | h
        · exact .inl (hadd names candidates)
        · exact .inr ⟨candidates, h⟩
  apply ranked
  · rintro names ⟨other, candidates⟩ h
    exact Assoc.mem_keys_set.mpr (.inr h)
  · intro names candidates
    exact Assoc.mem_keys_set.mpr (.inl rfl)
  · exact .inr ⟨e.candidates nested, List.mem_mergeSort.mpr (List.mem_map_of_mem he)⟩

def NamesEach (Q : Scope → List (String × String) → Prop) (names : NameMap) : Prop :=
  ∀ ⦃scope found⦄, names.lookup scope = some found → Q scope found

section Each

variable {Q : Scope → List (String × String) → Prop}
  (hQ : ∀ scope above, Q scope (scopeNames (!scope.isEmpty) above
    ((g.entries scope).filter fun e => wanted scope e.key)))

include hQ

theorem NamesEach.nameScope (h : NamesEach Q names) (scope : Scope) :
    NamesEach Q (g.nameScope wanted names scope) := by
  intro c found hc
  unfold Registry.nameScope at hc
  by_cases he : c = scope
  · rw [he, Assoc.lookup_set_self] at hc
    cases hc
    rw [he]
    exact hQ scope _
  · rw [Assoc.lookup_set_of_ne he] at hc
    exact h hc

theorem NamesEach.nameQueue (fuel : Nat) (queue : List Scope) (h : NamesEach Q names) :
    NamesEach Q (g.nameQueue wanted fuel queue names) := by
  induction fuel generalizing queue names with
  | zero =>
    rw [Registry.nameQueue]
    exact h
  | succ fuel ih =>
    cases queue with
    | nil => exact h
    | cons scope queue =>
      rw [Registry.nameQueue]
      split
      · exact ih _ h
      · exact ih _ (h.nameScope hQ scope)

theorem displayNames_each : NamesEach Q (g.displayNames wanted) := by
  unfold displayNames
  apply List.foldlRecOn (motive := NamesEach Q)
  · apply NamesEach.nameQueue hQ
    intro scope found hs
    cases hs
  · intro names hnames scope _
    split
    · exact hnames
    · exact hnames.nameScope hQ scope

end Each

theorem mem_keys_nameScope {c : Scope} :
    c ∈ Assoc.keys (g.nameScope wanted names scope) ↔ c = scope ∨ c ∈ Assoc.keys names :=
  Assoc.mem_keys_set

theorem mem_keys_passed (more : List Scope) {c : Scope} (h : c ∈ Assoc.keys names ∨ c ∈ more) :
    c ∈ Assoc.keys (more.foldl (fun names scope =>
      if Assoc.has scope names then names else g.nameScope wanted names scope) names) := by
  induction more generalizing names with
  | nil => simpa using h
  | cons scope more ih =>
    rw [List.foldl_cons]
    apply ih
    split
    · next hhas =>
      rcases h with h | h
      · exact .inl h
      · rcases List.mem_cons.mp h with rfl | h
        · exact .inl (Assoc.has_iff.mp hhas)
        · exact .inr h
    · rw [mem_keys_nameScope]
      rcases h with h | h
      · exact .inl (.inr h)
      · exact (List.mem_cons.mp h).imp_left .inl

theorem mem_scopes_of_mem_keys (h : key ∈ g.keys scope) : scope ∈ Assoc.keys g.scopes := by
  rw [← Assoc.lookup_isSome_iff]
  cases hs : g.scopes.lookup scope with
  | some entries => rfl
  | none => simp [keys, entries, hs] at h

theorem displayNames_named (h : key ∈ g.keys scope) (hwanted : wanted scope key = true) :
    ((g.displayNames wanted).name? scope key).isSome := by
  have hscope : scope ∈ Assoc.keys (g.displayNames wanted) :=
    mem_keys_passed _ (.inr (List.mem_mergeSort.mpr (mem_scopes_of_mem_keys h)))
  obtain ⟨found, hfound⟩ := Option.isSome_iff_exists.mp (Assoc.lookup_isSome_iff.mpr hscope)
  have hall : NamesEach (fun c found => ∀ k ∈ g.keys c, wanted c k = true → k ∈ Assoc.keys found)
      (g.displayNames wanted) := by
    apply displayNames_each
    intro c above k hk hw
    obtain ⟨e, he, rfl⟩ := List.mem_map.mp hk
    exact mem_keys_scopeNames (List.mem_filter.mpr ⟨he, hw⟩)
  rw [NameMap.name?, hfound, Option.getD_some, Assoc.lookup_isSome_iff]
  exact hall hfound key h hwanted

theorem scopeNames_chosen {nested : Bool} {above : Option String} {entries : List Entry} {name : String}
    (h : (scopeNames nested above entries).lookup key = some name) :
    ∃ e ∈ entries, e.key = key ∧ ∃ taken, name = chooseName taken above e (e.candidates nested) := by
  let Good (names : List (String × String)) : Prop :=
    ∀ k n, names.lookup k = some n →
      ∃ e ∈ entries, e.key = k ∧ ∃ taken, n = chooseName taken above e (e.candidates nested)
  have hgood : Good (scopeNames nested above entries) := by
    unfold scopeNames
    apply List.foldlRecOn (motive := Good)
    · intro k n hk
      cases hk
    · rintro names hnames ⟨e, candidates⟩ hmem k n hk
      obtain ⟨e', he, hranked⟩ := List.mem_map.mp (List.mem_mergeSort.mp hmem)
      cases hranked
      by_cases hke : k = e.key
      · rw [hke, Assoc.lookup_set_self] at hk
        cases hk
        exact ⟨e, he, hke.symm, _, rfl⟩
      · rw [Assoc.lookup_set_of_ne hke] at hk
        exact hnames k n hk
  exact hgood key name h

theorem displayNames_chosen {name : String} (h : (g.displayNames wanted).name? scope key = some name) :
    ∃ e ∈ g.entries scope, e.key = key ∧
      ∃ taken above, name = chooseName taken above e (e.candidates (!scope.isEmpty)) := by
  have hall : NamesEach (fun c found => ∀ k n, found.lookup k = some n →
      ∃ e ∈ g.entries c, e.key = k ∧
        ∃ taken above, n = chooseName taken above e (e.candidates (!c.isEmpty))) (g.displayNames wanted) := by
    apply displayNames_each
    intro c above k n hk
    obtain ⟨e, he, hkey, taken, hchosen⟩ := scopeNames_chosen hk
    exact ⟨e, (List.mem_filter.mp he).1, hkey, taken, above, hchosen⟩
  unfold NameMap.name? at h
  cases hs : (g.displayNames wanted).lookup scope with
  | none =>
    rw [hs] at h
    cases h
  | some found =>
    rw [hs] at h
    exact hall hs key name h

def Suits (e : Entry) (nested : Bool) (name : String) : Prop :=
  name ∈ (e.candidates nested).map Key.normalize ∨ ∃ base i, name = numbered base i

theorem chooseName_suits (taken : List String) (above : Option String) (e : Entry) (nested : Bool) :
    Suits e nested (chooseName taken above e (e.candidates nested)) := by
  unfold chooseName
  dsimp only
  split
  · next hname => exact .inl (List.mem_of_find?_eq_some hname)
  · exact .inr ⟨_, _, rfl⟩

theorem displayNames_suits {name : String} (h : (g.displayNames wanted).name? scope key = some name) :
    ∃ e ∈ g.entries scope, e.key = key ∧ Suits e (!scope.isEmpty) name := by
  obtain ⟨e, he, hkey, taken, above, rfl⟩ := displayNames_chosen h
  exact ⟨e, he, hkey, chooseName_suits ..⟩

end Registry

end Stencil
