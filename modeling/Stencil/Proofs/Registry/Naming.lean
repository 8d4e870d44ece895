import Mathlib.Data.List.Nodup
import Mathlib.Data.List.Perm.Subperm
import Stencil.Proofs.Assoc
import Stencil.Proofs.Key
import Stencil.Registry.Naming

namespace Stencil

def OneToOne (names : List (String × String)) : Prop :=
  ∀ ⦃j k name⦄, names.lookup j = some name → names.lookup k = some name → j = k

theorem OneToOne.nil : OneToOne [] := by
  intro j k name hj
  cases hj

theorem OneToOne.set {names : List (String × String)} {key name : String} (h : OneToOne names)
    (hname : name ∉ names.map Prod.snd) : OneToOne (Assoc.set key name names) := by
  have hold : ∀ j, names.lookup j ≠ some name := by
    intro j hj
    obtain ⟨before, after, rfl, -⟩ := List.lookup_eq_some_iff.mp hj
    exact hname (by simp)
  intro i j n hi hj
  by_cases hik : i = key
  · by_cases hjk : j = key
    · rw [hik, hjk]
    · rw [hik, Assoc.lookup_set_self] at hi
      rw [Assoc.lookup_set_of_ne hjk] at hj
      cases hi
      exact absurd hj (hold j)
  · rw [Assoc.lookup_set_of_ne hik] at hi
    by_cases hjk : j = key
    · rw [hjk, Assoc.lookup_set_self] at hj
      cases hj
      exact absurd hi (hold i)
    · rw [Assoc.lookup_set_of_ne hjk] at hj
      exact h hi hj

theorem numbered_inj {base : String} {i j : Nat} (h : numbered base i = numbered base j) : i = j :=
  Key.toString_inj ((String.append_right_inj _).mp h)

namespace Registry

variable {r : Registry} {wanted : Scope → String → Bool}

theorem exists_free_number (taken : List String) (base : String) :
    ∃ i < taken.length + 1, numbered base i ∉ taken := by
  by_contra hno
  push Not at hno
  have hsub : (List.range (taken.length + 1)).map (numbered base) ⊆ taken := by
    intro name hname
    obtain ⟨i, hi, rfl⟩ := List.mem_map.mp hname
    exact hno i (List.mem_range.mp hi)
  have hnodup : ((List.range (taken.length + 1)).map (numbered base)).Nodup :=
    List.Nodup.map (fun _ _ => numbered_inj) List.nodup_range
  have hle := hnodup.length_le_of_subset hsub
  rw [List.length_map, List.length_range] at hle
  omega

theorem firstFreeNumber_free (taken : List String) (base : String) :
    numbered base (firstFreeNumber taken base) ∉ taken := by
  obtain ⟨i, hi, hfree⟩ := exists_free_number taken base
  have hsome : ((List.range (taken.length + 1)).find?
      fun i => !taken.contains (numbered base i)).isSome := by
    rw [List.find?_isSome]
    exact ⟨i, List.mem_range.mpr hi, by simpa using hfree⟩
  obtain ⟨j, hj⟩ := Option.isSome_iff_exists.mp hsome
  have hfound := List.find?_some hj
  rw [firstFreeNumber, hj]
  simpa using hfound

theorem chooseName_free (taken : List String) (above : Option String) (e : Entry)
    (candidates : List String) : chooseName taken above e candidates ∉ taken := by
  unfold chooseName
  dsimp only
  split
  · next hname =>
    have hfound := List.find?_some hname
    rw [Bool.and_eq_true, Bool.and_eq_true] at hfound
    simpa using hfound.1.2
  · exact firstFreeNumber_free taken _

theorem scopeNames_oneToOne (nested : Bool) (above : Option String) (entries : List Entry) :
    OneToOne (scopeNames nested above entries) := by
  unfold scopeNames
  apply List.foldlRecOn (motive := OneToOne)
  · exact OneToOne.nil
  · intro names hnames ranked _
    exact hnames.set (chooseName_free _ above ranked.1 ranked.2)

end Registry

namespace NameMap

def OneToOne (names : NameMap) : Prop :=
  ∀ ⦃scope scopeNames⦄, names.lookup scope = some scopeNames → Stencil.OneToOne scopeNames

theorem OneToOne.set {names : NameMap} {scope : Scope} {scopeNames : List (String × String)}
    (h : names.OneToOne) (hscope : Stencil.OneToOne scopeNames) :
    OneToOne (Assoc.set scope scopeNames names) := by
  intro s found hs
  by_cases he : s = scope
  · rw [he, Assoc.lookup_set_self] at hs
    cases hs
    exact hscope
  · rw [Assoc.lookup_set_of_ne he] at hs
    exact h hs

end NameMap

namespace Registry

variable {r : Registry} {wanted : Scope → String → Bool}

theorem nameScope_oneToOne {names : NameMap} (h : names.OneToOne) (scope : Scope) :
    (r.nameScope wanted names scope).OneToOne :=
  h.set (scopeNames_oneToOne ..)

theorem nameQueue_oneToOne (fuel : Nat) (queue : List Scope) {names : NameMap} (h : names.OneToOne) :
    (r.nameQueue wanted fuel queue names).OneToOne := by
  induction fuel generalizing queue names with
  | zero =>
    rw [nameQueue]
    exact h
  | succ fuel ih =>
    cases queue with
    | nil => exact h
    | cons scope queue =>
      rw [nameQueue]
      split
      · exact ih _ h
      · exact ih _ (nameScope_oneToOne h scope)

theorem displayNames_oneToOne : (r.displayNames wanted).OneToOne := by
  unfold displayNames
  apply List.foldlRecOn (motive := NameMap.OneToOne)
  · apply nameQueue_oneToOne
    intro scope scopeNames hs
    cases hs
  · intro names hnames scope _
    split
    · exact hnames
    · exact nameScope_oneToOne hnames scope

end Registry

end Stencil
