import Stencil.Proofs.Key
import Stencil.Proofs.Registry.Coverage
import Stencil.Proofs.Registry.Entered

namespace Stencil

namespace Assoc

variable {κ β : Type} [BEq κ] [LawfulBEq κ]

theorem keys_set_of_not_mem {k : κ} {v : β} {entries : List (κ × β)} (h : k ∉ keys entries) :
    keys (set k v entries) = keys entries ++ [k] := by
  rw [set_of_not_mem h, keys, List.map_append]
  rfl

theorem nodup_keys_set {k : κ} {v : β} {entries : List (κ × β)} (h : (keys entries).Nodup) :
    (keys (set k v entries)).Nodup := by
  induction entries with
  | nil => exact List.nodup_singleton k
  | cons e entries ih =>
    rw [set]
    split
    · exact h
    · next hk =>
      rw [keys_cons, List.nodup_cons] at h
      refine List.nodup_cons.mpr ⟨?_, ih h.2⟩
      rw [← keys, mem_keys_set]
      rintro (he | he)
      · exact hk (beq_iff_eq.mpr he.symm)
      · exact h.1 he

end Assoc

namespace Registry

variable {g : Registry} {wanted : Scope → String → Bool} {scope : Scope} {above : Option String}
  {nested : Bool} {entries : List Entry} {e : Entry} {taken candidates : List String} {candidate : String}

theorem chooseName_normal (he : Key.Normal e.key ∧ e.key ≠ "") :
    Key.Normal (chooseName taken above e candidates) ∧ chooseName taken above e candidates ≠ "" := by
  unfold chooseName
  dsimp only
  split
  · next name hname =>
    obtain ⟨c, -, rfl⟩ := List.mem_map.mp (List.mem_of_find?_eq_some hname)
    have hfound := List.find?_some hname
    rw [Bool.and_eq_true, Bool.and_eq_true] at hfound
    exact ⟨Key.normal_normalize c, by simpa using hfound.1.1⟩
  · constructor
    · split
      · exact Key.normal_numbered he.1 he.2 _
      · next hne => exact Key.normal_numbered (Key.normal_normalize _) (by simpa using hne) _
    · exact numbered_ne_empty _ _

theorem chooseName_ne_above (hc : candidate ∈ candidates) (hne : Key.normalize candidate ≠ "")
    (htaken : Key.normalize candidate ∉ taken) (habove : above ≠ some (Key.normalize candidate)) :
    above ≠ some (chooseName taken above e candidates) := by
  unfold chooseName
  dsimp only
  split
  · next name hname =>
    have hfound := List.find?_some hname
    rw [Bool.and_eq_true] at hfound
    exact (bne_iff_ne.mp hfound.2).symm
  · next hnone =>
    have hno := List.find?_eq_none.mp hnone _ (List.mem_map_of_mem hc)
    rw [Bool.and_eq_true, Bool.and_eq_true] at hno
    exact absurd ⟨⟨by simpa using hne, by simpa using htaken⟩, bne_iff_ne.mpr habove.symm⟩ hno

def giveName (above : Option String) (names : List (String × String)) (ranked : Entry × List String) :
    List (String × String) :=
  Assoc.set ranked.1.key (chooseName (names.map Prod.snd) above ranked.1 ranked.2) names

theorem foldl_giveName (above : Option String) (ranked : List (Entry × List String))
    (names : List (String × String))
    (hnodup : (Assoc.keys names ++ ranked.map fun p => p.1.key).Nodup) :
    (∀ key name, names.lookup key = some name →
      (ranked.foldl (giveName above) names).lookup key = some name) ∧
    ∀ p ∈ ranked, ∃ taken,
      (ranked.foldl (giveName above) names).lookup p.1.key = some (chooseName taken above p.1 p.2) ∧
      ∀ name ∈ taken, ∃ other ≠ p.1.key,
        (ranked.foldl (giveName above) names).lookup other = some name := by
  induction ranked generalizing names with
  | nil => exact ⟨fun _ _ h => h, fun p hp => absurd hp List.not_mem_nil⟩
  | cons p ranked ih =>
    rw [List.map_cons] at hnodup
    have hp : p.1.key ∉ Assoc.keys names := by
      intro hmem
      exact (List.nodup_append.mp hnodup).2.2 _ hmem _ List.mem_cons_self rfl
    have hnew : (Assoc.keys (giveName above names p) ++ ranked.map fun p => p.1.key).Nodup := by
      rw [giveName, Assoc.keys_set_of_not_mem hp, List.append_assoc]
      exact hnodup
    obtain ⟨hstays, hrest⟩ := ih (giveName above names p) hnew
    have hold (key name : String) (h : names.lookup key = some name) :
        key ≠ p.1.key ∧ ((p :: ranked).foldl (giveName above) names).lookup key = some name := by
      have hkey : key ≠ p.1.key := by
        rintro rfl
        exact hp (Assoc.mem_keys_of_lookup h)
      refine ⟨hkey, hstays key name ?_⟩
      rw [giveName, Assoc.lookup_set_of_ne hkey, h]
    refine ⟨fun key name h => (hold key name h).2, ?_⟩
    intro q hq
    rcases List.mem_cons.mp hq with rfl | hq
    · refine ⟨names.map Prod.snd, hstays _ _ (Assoc.lookup_set_self ..), ?_⟩
      intro name hname
      obtain ⟨⟨key, name⟩, hmem, rfl⟩ := List.mem_map.mp hname
      have hlookup := Assoc.lookup_of_mem (List.nodup_append.mp hnodup).1 hmem
      exact ⟨key, (hold key name hlookup).1, (hold key name hlookup).2⟩
    · exact hrest q hq

theorem scopeNames_given (nested : Bool) (above : Option String) (hnodup : (entries.map Entry.key).Nodup)
    (he : e ∈ entries) :
    ∃ taken, (scopeNames nested above entries).lookup e.key =
        some (chooseName taken above e (e.candidates nested)) ∧
      ∀ name ∈ taken, ∃ other ≠ e.key, (scopeNames nested above entries).lookup other = some name := by
  let ranked := (entries.map fun e => (e, e.candidates nested)).mergeSort ranksBefore
  have hperm : (ranked.map fun p => p.1.key).Perm (entries.map Entry.key) := by
    have h := (List.mergeSort_perm (entries.map fun e => (e, e.candidates nested)) ranksBefore).map
      fun p => p.1.key
    rw [List.map_map] at h
    exact h
  have hgiven := (foldl_giveName above ranked [] (hperm.nodup_iff.mpr hnodup)).2
  exact hgiven (e, e.candidates nested) (List.mem_mergeSort.mpr (List.mem_map_of_mem he))

theorem nodup_keys_scopeNames (nested : Bool) (above : Option String) (entries : List Entry) :
    (Assoc.keys (scopeNames nested above entries)).Nodup := by
  unfold scopeNames
  apply List.foldlRecOn (motive := fun names : List (String × String) => (Assoc.keys names).Nodup)
  · exact List.nodup_nil
  · intro names hnames p _
    exact Assoc.nodup_keys_set hnames

theorem mem_keys_scopeNames_iff {key : String} :
    key ∈ Assoc.keys (scopeNames nested above entries) ↔ key ∈ entries.map Entry.key := by
  constructor
  · intro h
    obtain ⟨name, hname⟩ := Option.isSome_iff_exists.mp (Assoc.lookup_isSome_iff.mpr h)
    obtain ⟨e, he, hkey, -⟩ := scopeNames_chosen hname
    exact List.mem_map.mpr ⟨e, he, hkey⟩
  · intro h
    obtain ⟨e, he, rfl⟩ := List.mem_map.mp h
    exact mem_keys_scopeNames he

def Usable (above : Option String) (found : List (String × String)) (key candidate : String) : Prop :=
  Key.normalize candidate ≠ "" ∧ above ≠ some (Key.normalize candidate) ∧
    ∀ other ≠ key, found.lookup other ≠ some (Key.normalize candidate)

structure WellNamed (g : Registry) (wanted : Scope → String → Bool) (scope : Scope)
    (found : List (String × String)) : Prop where
  nodup : (Assoc.keys found).Nodup
  keys : ∀ key, key ∈ Assoc.keys found ↔ key ∈ g.keys scope ∧ wanted scope key = true
  oneToOne : OneToOne found
  normal : ∀ key name, found.lookup key = some name → Key.Normal name ∧ name ≠ ""

theorem wellNamed_scopeNames (hg : Sound g) (nested : Bool) (above : Option String) :
    WellNamed g wanted scope
      (scopeNames nested above ((g.entries scope).filter fun e => wanted scope e.key)) where
  nodup := nodup_keys_scopeNames ..
  keys key := by
    rw [mem_keys_scopeNames_iff, Registry.keys, List.mem_map, List.mem_map]
    simp only [List.mem_filter]
    constructor
    · rintro ⟨e, ⟨he, hw⟩, rfl⟩
      exact ⟨⟨e, he, rfl⟩, hw⟩
    · rintro ⟨⟨e, he, rfl⟩, hw⟩
      exact ⟨e, ⟨he, hw⟩, rfl⟩
  oneToOne := scopeNames_oneToOne ..
  normal key name h := by
    obtain ⟨e, he, -, taken, rfl⟩ := scopeNames_chosen h
    apply chooseName_normal
    exact hg.normal scope e.key (List.mem_map_of_mem (List.mem_filter.mp he).1)

theorem ne_above_iff (hg : Sound g) (he : e ∈ g.entries scope) {found : List (String × String)}
    (hfound : found = scopeNames nested above ((g.entries scope).filter fun e => wanted scope e.key))
    {name : String} (hname : found.lookup e.key = some name)
    (hcandidate : name ∈ (e.candidates nested).map Key.normalize) :
    above ≠ some name ↔ ∃ c ∈ e.candidates nested, Usable above found e.key c := by
  have hwell : WellNamed g wanted scope found := hfound ▸ wellNamed_scopeNames hg nested above
  constructor
  · intro habove
    obtain ⟨c, hc, rfl⟩ := List.mem_map.mp hcandidate
    refine ⟨c, hc, (hwell.normal _ _ hname).2, habove, ?_⟩
    intro other hother hlookup
    exact hother (hwell.oneToOne hlookup hname)
  · rintro ⟨c, hc, hne, habove, hothers⟩
    have hwanted : wanted scope e.key = true :=
      ((hwell.keys e.key).mp (Assoc.mem_keys_of_lookup hname)).2
    have hnodup : (((g.entries scope).filter fun e => wanted scope e.key).map Entry.key).Nodup :=
      (hg.nodup scope).sublist (List.filter_sublist.map Entry.key)
    obtain ⟨taken, hgiven, htaken⟩ :=
      scopeNames_given nested above hnodup (List.mem_filter.mpr ⟨he, hwanted⟩)
    rw [← hfound, hname] at hgiven
    rw [Option.some.inj hgiven]
    apply chooseName_ne_above hc hne _ habove
    intro hmem
    obtain ⟨other, hother, hlookup⟩ := htaken _ hmem
    rw [← hfound] at hlookup
    exact hothers other hother hlookup

end Registry

end Stencil
