import Mathlib.Data.List.Nodup
import Stencil.Proofs.Failure
import Stencil.Proofs.Json
import Stencil.Proofs.Text
import Stencil.Site.Config

namespace Stencil

namespace SiteConfig

inductive Filled : Json → Prop
  | string {s : String} (filled : Text.allBlank s = false) : Filled (.string s)

def selectorKeys : List String :=
  ["selector", "after_selector", "before_selector"]

inductive IsContent : Json → Prop
  | object {entries : List (String × Json)}
      (each : ∀ key ∈ selectorKeys, entry entries key = .null ∨ Filled (entry entries key))
      (one : ∃ key ∈ selectorKeys, Filled (entry entries key)) : IsContent (.object entries)

inductive IsInclude : Json → Prop
  | array {items : List Json} (nonempty : items ≠ []) (each : ∀ j ∈ items, Filled j) : IsInclude (.array items)

inductive IsCollection : Json → Prop
  | object {entries : List (String × Json)} (name : Filled (entry entries "name"))
      (patterns : IsInclude (entry entries "include"))
      (content : entry entries "content" = .null ∨ IsContent (entry entries "content")) :
      IsCollection (.object entries)

def textOf : Json → String
  | .string s => Text.strip s
  | _ => ""

def itemsOf : Json → List Json
  | .array items => items
  | _ => []

def entryOf (key : String) : Json → Json
  | .object entries => entry entries key
  | _ => .null

def nameOf (j : Json) : String :=
  textOf (entryOf "name" j)

/-- The shape of a configuration; an absent entry counts as null. -/
inductive Documented : Json → Prop
  | object {entries : List (String × Json)} {items : List Json}
      (collections : entry entries "collections" = .array items) (nonempty : items ≠ [])
      (each : ∀ j ∈ items, IsCollection j) (distinct : (items.map nameOf).Nodup) : Documented (.object entries)

def selectorAt (key : String) (j : Json) : Option String :=
  match entryOf key j with
  | .string s => some (Text.strip s)
  | _ => none

def described : Json → Option RegionConfig
  | .null => none
  | j => some ⟨selectorAt "selector" j, selectorAt "after_selector" j, selectorAt "before_selector" j⟩

def describedCollection (j : Json) : CollectionConfig :=
  ⟨nameOf j, (itemsOf (entryOf "include" j)).map textOf, described (entryOf "content" j)⟩

def describedCollections (j : Json) : List CollectionConfig :=
  (itemsOf (entryOf "collections" j)).map describedCollection

theorem describedCollections_object {entries : List (String × Json)} {items : List Json}
    (h : entry entries "collections" = .array items) :
    describedCollections (.object entries) = items.map describedCollection := by
  rw [describedCollections, entryOf, h, itemsOf]

theorem Documented.names {j : Json} (h : Documented j) :
    ((describedCollections j).map CollectionConfig.name).Nodup := by
  cases h with
  | object hitems _ _ distinct =>
    rw [describedCollections_object hitems, List.map_map]
    exact distinct

def describedSite {j : Json} (h : Documented j) : SiteConfig :=
  ⟨describedCollections j, h.names⟩

theorem filledText?_eq_some {j : Json} {s : String} : filledText? j = some s ↔ Filled j ∧ s = textOf j := by
  constructor
  · intro h
    cases j with
    | string t =>
      simp only [filledText?, Text.isEmpty_strip] at h
      split at h
      · cases h
      · next hfilled =>
        cases h
        exact ⟨.string (Bool.eq_false_iff.mpr hfilled), rfl⟩
    | _ => cases h
  · rintro ⟨⟨hfilled⟩, rfl⟩
    simp [filledText?, Text.isEmpty_strip, hfilled, textOf]

theorem mapM_filledText? {items : List Json} {texts : List String} :
    items.mapM filledText? = some texts ↔ (∀ j ∈ items, Filled j) ∧ texts = items.map textOf := by
  induction items generalizing texts with
  | nil => simp [eq_comm]
  | cons j items ih =>
    rw [List.mapM_cons, List.forall_mem_cons, List.map_cons]
    simp only [Option.bind_eq_bind, Option.bind_eq_some_iff, ih, filledText?_eq_some, Option.pure_def,
      Option.some_inj]
    constructor
    · rintro ⟨s, ⟨hs, rfl⟩, others, ⟨hothers, rfl⟩, rfl⟩
      exact ⟨⟨hs, hothers⟩, rfl⟩
    · rintro ⟨⟨hs, hothers⟩, rfl⟩
      exact ⟨_, ⟨hs, rfl⟩, _, ⟨hothers, rfl⟩, rfl⟩

variable {index : Nat} {entries : List (String × Json)} {key : String} {j : Json}

theorem patternsOf_eq_ok {patterns : List String} :
    patternsOf index j = .ok patterns ↔ IsInclude j ∧ patterns = (itemsOf j).map textOf := by
  constructor
  · intro h
    unfold patternsOf at h
    split at h
    · cases h
    · next items hnonempty =>
      split at h
      · next hitems =>
        cases h
        obtain ⟨heach, rfl⟩ := mapM_filledText?.mp hitems
        exact ⟨.array hnonempty heach, rfl⟩
      · cases h
    · cases h
  · rintro ⟨⟨hnonempty, heach⟩, rfl⟩
    rw [patternsOf, mapM_filledText?.mpr ⟨heach, rfl⟩]
    · rfl
    · exact hnonempty

theorem selectorOf_eq_ok {selector : Option String} : selectorOf index entries key = .ok selector ↔
    (entry entries key = .null ∨ Filled (entry entries key)) ∧ selector = selectorAt key (.object entries) := by
  rw [selectorOf, selectorAt, entryOf]
  generalize entry entries key = j
  constructor
  · intro h
    split at h
    · cases h
      exact ⟨.inl rfl, rfl⟩
    · split at h
      · next hs =>
        cases h
        obtain ⟨hfilled, rfl⟩ := filledText?_eq_some.mp hs
        cases hfilled with
        | string hfilled => exact ⟨.inr (.string hfilled), rfl⟩
      · cases h
  · rintro ⟨rfl | hfilled, rfl⟩
    · rfl
    · cases hfilled with
      | string hfilled => simp only [filledText?_eq_some.mpr ⟨.string hfilled, rfl⟩, textOf]

theorem selectorAt_isSome (h : entry entries key = .null ∨ Filled (entry entries key)) :
    (selectorAt key (.object entries)).isSome = true ↔ Filled (entry entries key) := by
  rw [selectorAt, entryOf]
  generalize entry entries key = j at h
  rcases h with rfl | hfilled
  · constructor <;> intro h <;> cases h
  · cases hfilled with
    | string hfilled => exact ⟨fun _ => .string hfilled, fun _ => rfl⟩

theorem selectors_isNone (h : ∀ key ∈ selectorKeys, entry entries key = .null ∨ Filled (entry entries key)) :
    ((selectorAt "selector" (.object entries)).isNone && (selectorAt "after_selector" (.object entries)).isNone &&
        (selectorAt "before_selector" (.object entries)).isNone) = true ↔
      ¬∃ key ∈ selectorKeys, Filled (entry entries key) := by
  have hnone {key : String} (hkey : key ∈ selectorKeys) :
      (selectorAt key (.object entries)).isNone = true ↔ ¬Filled (entry entries key) := by
    rw [← selectorAt_isSome (h key hkey), Option.isNone_iff_eq_none, Option.isSome_iff_ne_none, not_not]
  rw [Bool.and_eq_true, Bool.and_eq_true, hnone (by decide), hnone (by decide), hnone (by decide)]
  simp [selectorKeys, and_assoc]

theorem regionOf_eq_ok {region : Option RegionConfig} :
    regionOf index j = .ok region ↔ (j = .null ∨ IsContent j) ∧ region = described j := by
  cases j with
  | null => simp [regionOf, described, eq_comm]
  | object entries =>
    simp only [regionOf, bind_eq_ok, selectorOf_eq_ok]
    constructor
    · rintro ⟨_, ⟨hinside, rfl⟩, _, ⟨hafter, rfl⟩, _, ⟨hbefore, rfl⟩, h⟩
      have heach : ∀ key ∈ selectorKeys, entry entries key = .null ∨ Filled (entry entries key) := by
        simp [selectorKeys, hinside, hafter, hbefore]
      split at h
      · cases h
      · next hone =>
        cases h
        rw [selectors_isNone heach, not_not] at hone
        exact ⟨.inr (.object heach hone), rfl⟩
    · rintro ⟨hnull | hcontent, rfl⟩
      · cases hnull
      · cases hcontent with
        | object heach hone =>
          refine ⟨_, ⟨heach _ (by decide), rfl⟩, _, ⟨heach _ (by decide), rfl⟩, _, ⟨heach _ (by decide), rfl⟩, ?_⟩
          rw [if_neg ((selectors_isNone heach).not.mpr (not_not.mpr hone))]
          rfl
  | _ =>
    constructor
    · intro h
      cases h
    · rintro ⟨h | h, -⟩ <;> cases h

theorem collectionOf_eq_ok {taken : List String} {c : CollectionConfig} :
    collectionOf index taken j = .ok c ↔ IsCollection j ∧ nameOf j ∉ taken ∧ c = describedCollection j := by
  constructor
  · intro h
    unfold collectionOf at h
    split at h
    · split at h
      · next hfilled =>
        obtain ⟨hname, rfl⟩ := filledText?_eq_some.mp hfilled
        obtain ⟨name, hsame, h⟩ := bind_eq_ok.mp h
        cases hsame
        dsimp only at h
        split at h
        · cases h
        · next hfree =>
          obtain ⟨patterns, hpatterns, h⟩ := bind_eq_ok.mp h
          obtain ⟨region, hregion, h⟩ := bind_eq_ok.mp h
          cases h
          obtain ⟨hinclude, rfl⟩ := patternsOf_eq_ok.mp hpatterns
          obtain ⟨hcontent, rfl⟩ := regionOf_eq_ok.mp hregion
          exact ⟨.object hname hinclude hcontent, by simpa [nameOf, entryOf] using hfree, rfl⟩
      · cases h
    · cases h
  · rintro ⟨hcollection, hfree, rfl⟩
    cases hcollection with
    | object hname hpatterns hcontent =>
      rw [collectionOf, filledText?_eq_some.mpr ⟨hname, rfl⟩]
      refine bind_eq_ok.mpr ⟨_, rfl, ?_⟩
      dsimp only
      rw [if_neg (by simpa [nameOf, entryOf] using hfree)]
      exact bind_eq_ok.mpr ⟨_, patternsOf_eq_ok.mpr ⟨hpatterns, rfl⟩,
        bind_eq_ok.mpr ⟨_, regionOf_eq_ok.mpr ⟨hcontent, rfl⟩, rfl⟩⟩

theorem collectionsOf_eq_ok {taken : List String} {items : List Json} {cs : List CollectionConfig} :
    collectionsOf index taken items = .ok cs ↔ (∀ j ∈ items, IsCollection j) ∧ (items.map nameOf).Nodup ∧
      (∀ j ∈ items, nameOf j ∉ taken) ∧ cs = items.map describedCollection := by
  induction items generalizing index taken cs with
  | nil => simp [collectionsOf, eq_comm]
  | cons j items ih =>
    rw [collectionsOf, bind_eq_ok, List.forall_mem_cons, List.forall_mem_cons, List.map_cons, List.map_cons,
      List.nodup_cons]
    constructor
    · rintro ⟨c, hc, h⟩
      obtain ⟨hcollection, hfree, rfl⟩ := collectionOf_eq_ok.mp hc
      obtain ⟨others, hothers, h⟩ := bind_eq_ok.mp h
      cases h
      obtain ⟨hcollections, hdistinct, hothersfree, rfl⟩ := ih.mp hothers
      refine ⟨⟨hcollection, hcollections⟩, ⟨fun hmem => ?_, hdistinct⟩, ⟨hfree, fun i hi htaken => ?_⟩, rfl⟩
      · obtain ⟨i, hi, hsame⟩ := List.mem_map.mp hmem
        exact hothersfree i hi (hsame ▸ List.mem_cons_self)
      · exact hothersfree i hi (List.mem_cons_of_mem _ htaken)
    · rintro ⟨⟨hcollection, hcollections⟩, ⟨hnew, hdistinct⟩, ⟨hfree, hothersfree⟩, rfl⟩
      refine ⟨_, collectionOf_eq_ok.mpr ⟨hcollection, hfree, rfl⟩, bind_eq_ok.mpr ⟨_, ih.mpr ?_, rfl⟩⟩
      refine ⟨hcollections, hdistinct, fun i hi hmem => ?_, rfl⟩
      -- the names taken by now are those from before and the one of this collection
      rcases List.mem_cons.mp hmem with hsame | htaken
      · exact hnew (List.mem_map.mpr ⟨i, hi, hsame⟩)
      · exact hothersfree i hi htaken

theorem read_eq_ok {config : SiteConfig} : read j = .ok config ↔ ∃ h : Documented j, config = describedSite h := by
  constructor
  · intro h
    unfold read at h
    split at h
    · split at h
      · next hitems =>
        split at h
        · next hcs =>
          cases h
          obtain ⟨hcollections, hdistinct, -, rfl⟩ := collectionsOf_eq_ok.mp hcs
          refine ⟨.object hitems (List.cons_ne_nil _ _) hcollections hdistinct, ?_⟩
          simp only [describedSite, describedCollections_object hitems]
        · cases h
      · cases h
    · cases h
  · rintro ⟨hdocumented, rfl⟩
    cases hdocumented with
    | object hitems hnonempty hcollections hdistinct =>
      rename_i entries items
      obtain ⟨j, rest, rfl⟩ := List.exists_cons_of_ne_nil hnonempty
      have hread : collectionsOf 0 [] (j :: rest) = .ok ((j :: rest).map describedCollection) :=
        collectionsOf_eq_ok.mpr ⟨hcollections, hdistinct, fun _ _ => List.not_mem_nil, rfl⟩
      rw [read, hitems]
      simp only [describedSite, describedCollections_object hitems]
      split
      · next hcs =>
        rw [hread] at hcs
        cases hcs
        rfl
      · next hcs =>
        rw [hread] at hcs
        cases hcs

def Trimmed (s : String) : Prop :=
  Text.strip s = s ∧ s ≠ ""

def selectors (r : RegionConfig) : List (String × Option String) :=
  [("selector", r.inside), ("after_selector", r.after), ("before_selector", r.before)]

structure TrimmedRegion (r : RegionConfig) : Prop where
  each : ∀ e ∈ selectors r, ∀ s, e.2 = some s → Trimmed s
  one : ∃ e ∈ selectors r, e.2.isSome = true

structure TrimmedCollection (c : CollectionConfig) : Prop where
  name : Trimmed c.name
  nonempty : c.patterns ≠ []
  patterns : ∀ p ∈ c.patterns, Trimmed p
  region : ∀ r, c.region = some r → TrimmedRegion r

structure TrimmedSite (config : SiteConfig) : Prop where
  nonempty : config.collections ≠ []
  each : ∀ c ∈ config.collections, TrimmedCollection c

theorem Filled.trimmed (h : Filled j) : Trimmed (textOf j) := by
  cases h with
  | string hfilled =>
    refine ⟨Text.strip_strip _, fun hempty => ?_⟩
    rw [← Text.isEmpty_strip, ← textOf, hempty] at hfilled
    cases hfilled

theorem Trimmed.filled {s : String} (h : Trimmed s) : Filled (.string s) := by
  refine .string ?_
  rw [← Text.isEmpty_strip, h.1]
  exact String.isEmpty_eq_false_iff.mpr h.2

theorem trimmed_selectorAt {s : String} (h : entry entries key = .null ∨ Filled (entry entries key))
    (hs : selectorAt key (.object entries) = some s) : Trimmed s := by
  rw [selectorAt, entryOf] at hs
  rcases h with hnull | hfilled
  · rw [hnull] at hs
    cases hs
  · split at hs
    · next heq =>
      cases hs
      rw [heq] at hfilled
      exact hfilled.trimmed
    · cases hs

theorem IsContent.trimmed {r : RegionConfig} (h : IsContent j) (hr : described j = some r) : TrimmedRegion r := by
  cases h with
  | object each one =>
    rename_i entries
    cases hr
    have hselectors : ∀ key ∈ selectorKeys, (key, selectorAt key (.object entries)) ∈
        selectorKeys.map fun key => (key, selectorAt key (.object entries)) := fun key hkey =>
      List.mem_map_of_mem hkey
    refine ⟨fun e he s hs => ?_, ?_⟩
    · change e ∈ selectorKeys.map fun key => (key, selectorAt key (.object entries)) at he
      obtain ⟨key, hkey, rfl⟩ := List.mem_map.mp he
      exact trimmed_selectorAt (each key hkey) hs
    · obtain ⟨key, hkey, hfilled⟩ := one
      exact ⟨_, hselectors key hkey, (selectorAt_isSome (each key hkey)).mpr hfilled⟩

theorem IsCollection.trimmed (h : IsCollection j) : TrimmedCollection (describedCollection j) := by
  cases h with
  | object name patterns content =>
    rename_i entries
    have hpatterns : itemsOf (entry entries "include") ≠ [] ∧ ∀ i ∈ itemsOf (entry entries "include"), Filled i := by
      generalize entry entries "include" = i at patterns
      cases patterns with
      | array nonempty each => exact ⟨nonempty, each⟩
    refine ⟨name.trimmed, ?_, ?_, fun r hr => ?_⟩
    · exact fun hnil => hpatterns.1 (List.map_eq_nil_iff.mp hnil)
    · exact List.forall_mem_map.mpr fun i hi => (hpatterns.2 i hi).trimmed
    · rcases content with hnull | hcontent
      · simp [describedCollection, entryOf, hnull, described] at hr
      · exact hcontent.trimmed hr

theorem Documented.trimmed (h : Documented j) : TrimmedSite (describedSite h) := by
  have hcollections : (describedSite h).collections = describedCollections j := rfl
  cases h with
  | object hitems nonempty each _ =>
    rw [describedCollections_object hitems] at hcollections
    constructor
    · exact fun hnil => nonempty (List.map_eq_nil_iff.mp (hcollections.symm.trans hnil))
    · rw [hcollections]
      exact List.forall_mem_map.mpr fun i hi => (each i hi).trimmed

section Spelled

def spelled (o : Option String) : Json :=
  (o.map Json.string).getD .null

variable {o : Option String}

theorem spelled_filled (h : ∀ s, o = some s → Trimmed s) : spelled o = .null ∨ Filled (spelled o) := by
  cases o with
  | none => exact .inl rfl
  | some s => exact .inr (h s rfl).filled

theorem selectorAt_of_spelled (h : ∀ s, o = some s → Trimmed s) (hentry : entryOf key j = spelled o) :
    selectorAt key j = o := by
  rw [selectorAt, hentry]
  cases o with
  | none => rfl
  | some s => exact congrArg some (h s rfl).1

end Spelled

theorem entryOf_regionToJson (r : RegionConfig) : ∀ e ∈ selectors r, entryOf e.1 (regionToJson r) = spelled e.2 := by
  simp only [selectors, List.forall_mem_cons]
  obtain ⟨_ | inside, _ | after, _ | before⟩ := r <;>
    exact ⟨rfl, rfl, rfl, fun _ hnil => absurd hnil List.not_mem_nil⟩

theorem TrimmedRegion.written {r : RegionConfig} (h : TrimmedRegion r) :
    IsContent (regionToJson r) ∧ described (regionToJson r) = some r := by
  have hentry := entryOf_regionToJson r
  constructor
  · refine .object (fun key hkey => ?_) ?_
    · obtain ⟨e, he, rfl⟩ : ∃ e ∈ selectors r, e.1 = key := List.mem_map.mp hkey
      change entryOf e.1 (regionToJson r) = .null ∨ Filled (entryOf e.1 (regionToJson r))
      rw [hentry e he]
      exact spelled_filled (h.each e he)
    · obtain ⟨e, he, hsome⟩ := h.one
      obtain ⟨s, hs⟩ := Option.isSome_iff_exists.mp hsome
      refine ⟨e.1, List.mem_map_of_mem (f := Prod.fst) he, ?_⟩
      change Filled (entryOf e.1 (regionToJson r))
      rw [hentry e he, hs]
      exact (h.each e he s hs).filled
  · have hat : ∀ e ∈ selectors r, selectorAt e.1 (regionToJson r) = e.2 := fun e he =>
      selectorAt_of_spelled (h.each e he) (hentry e he)
    simp only [selectors, List.forall_mem_cons] at hat
    obtain ⟨hinside, hafter, hbefore, -⟩ := hat
    change some (RegionConfig.mk _ _ _) = some r
    rw [hinside, hafter, hbefore]

theorem TrimmedCollection.written {c : CollectionConfig} (h : TrimmedCollection c) :
    IsCollection (collectionToJson c) ∧ describedCollection (collectionToJson c) = c := by
  have hname : nameOf (collectionToJson c) = c.name := h.name.1
  have htexts : (c.patterns.map Json.string).map textOf = c.patterns := by
    rw [List.map_map]
    exact (List.map_congr_left fun p hp => (h.patterns p hp).1).trans (List.map_id _)
  have hinclude : IsInclude (.array (c.patterns.map Json.string)) := by
    refine .array (fun hnil => h.nonempty (List.map_eq_nil_iff.mp hnil)) ?_
    exact List.forall_mem_map.mpr fun p hp => (h.patterns p hp).filled
  obtain ⟨name, patterns, region⟩ := c
  cases region with
  | none =>
    refine ⟨.object h.name.filled hinclude (.inl rfl), ?_⟩
    change CollectionConfig.mk _ ((patterns.map Json.string).map textOf) none = _
    rw [hname, htexts]
  | some r =>
    obtain ⟨hcontent, hsame⟩ := (h.region r rfl).written
    refine ⟨.object h.name.filled hinclude (.inr hcontent), ?_⟩
    change CollectionConfig.mk _ ((patterns.map Json.string).map textOf) (described (regionToJson r)) = _
    rw [hname, htexts, hsame]

theorem TrimmedSite.written {config : SiteConfig} (h : TrimmedSite config) :
    ∃ hdocumented : Documented config.toJson, config = describedSite hdocumented := by
  have hnames : (config.collections.map collectionToJson).map nameOf =
      config.collections.map CollectionConfig.name := by
    rw [List.map_map]
    exact List.map_congr_left fun c hc => (h.each c hc).name.1
  have hsame : (config.collections.map collectionToJson).map describedCollection = config.collections := by
    rw [List.map_map]
    exact (List.map_congr_left fun c hc => (h.each c hc).written.2).trans (List.map_id _)
  have hdocumented : Documented config.toJson := by
    refine .object rfl (fun hnil => h.nonempty (List.map_eq_nil_iff.mp hnil)) ?_ (hnames ▸ config.distinct)
    exact List.forall_mem_map.mpr fun c hc => (h.each c hc).written.1
  refine ⟨hdocumented, ?_⟩
  obtain ⟨collections, distinct⟩ := config
  simp only [describedSite]
  congr 1
  exact hsame.symm

theorem wordedItems_map {β : Type} {f : β → Json} {xs : List β} (h : ∀ x ∈ xs, (f x).Worded) :
    Json.WordedItems (xs.map f) := by
  induction xs with
  | nil => trivial
  | cons x xs ih =>
    rw [List.forall_mem_cons] at h
    exact ⟨h.1, ih h.2⟩

theorem worded_regionToJson (r : RegionConfig) : (regionToJson r).Worded := by
  obtain ⟨_ | inside, _ | after, _ | before⟩ := r <;> simp [regionToJson, Json.Worded, Json.WordedEntries]

theorem worded_collectionToJson (c : CollectionConfig) : (collectionToJson c).Worded := by
  obtain ⟨name, patterns, region⟩ := c
  have hpatterns : Json.WordedItems (patterns.map Json.string) := wordedItems_map fun _ _ => trivial
  cases region with
  | none => simp [collectionToJson, Json.Worded, Json.WordedEntries, hpatterns]
  | some r => simp [collectionToJson, Json.Worded, Json.WordedEntries, hpatterns, worded_regionToJson]

theorem worded_toJson (config : SiteConfig) : config.toJson.Worded :=
  ⟨List.nodup_singleton _, wordedItems_map fun c _ => worded_collectionToJson c, trivial⟩

theorem ofJson_eq_ok {source : String} {config : SiteConfig} :
    ofJson source j = .ok config ↔ ∃ h : Documented j, config = describedSite h := by
  rw [← read_eq_ok, ofJson]
  cases read j with
  | ok other => simp
  | error problem => simp

theorem ofJson_of_refused {source : String} (h : ¬Documented j) :
    ∃ problem, ofJson source j = .error (.badConfig source problem) := by
  cases hread : read j with
  | ok config => exact absurd (read_eq_ok.mp hread).choose h
  | error problem => exact ⟨problem, by rw [ofJson, hread]⟩

/-- Reading accepts the documented shape and nothing else. What was read is trimmed; a file that it is written to
holds a document in that shape again, which reads as before. -/
theorem reads_documented (source : String) (j : Json) :
    (∀ config, ofJson source j = .ok config ↔ ∃ h : Documented j, config = describedSite h) ∧
      (¬Documented j → ∃ problem, ofJson source j = .error (.badConfig source problem)) ∧
      ∀ config, ofJson source j = .ok config → TrimmedSite config ∧
        Json.ofText? (config.toJson.text ++ "\n") = some config.toJson ∧
          ∀ again, ofJson again config.toJson = .ok config := by
  refine ⟨fun config => ofJson_eq_ok, ofJson_of_refused, fun config hread => ?_⟩
  obtain ⟨hdocumented, rfl⟩ := ofJson_eq_ok.mp hread
  have htrimmed := hdocumented.trimmed
  have hblank : Json.skipBlanks "\n".toList = [] := by decide
  exact ⟨htrimmed, Json.ofText?_text (worded_toJson _) hblank, fun again => ofJson_eq_ok.mpr htrimmed.written⟩

def papers : Json :=
  .object [("collections", .array [
    .object [("name", .string " news\n"), ("include", .array [.string "news/* ", .string "*.html"]),
      ("content", .null)],
    .object [("name", .string "new"), ("include", .array [.string "new/*"]),
      ("content", .object [("selector", .string "\tmain "), ("after_selector", .null)])]])]

theorem documented_papers : Documented papers := by
  refine .object rfl (List.cons_ne_nil _ _) ?_ (by decide +kernel)
  simp only [List.forall_mem_cons]
  refine ⟨.object (.string (by decide)) (.array (List.cons_ne_nil _ _) ?_) (.inl rfl),
    .object (.string (by decide)) (.array (List.cons_ne_nil _ _) ?_) (.inr (.object ?_ ?_)), ?_⟩
  · simp only [List.forall_mem_cons]
    exact ⟨.string (by decide), .string (by decide), fun _ hnil => absurd hnil List.not_mem_nil⟩
  · simp only [List.forall_mem_cons]
    exact ⟨.string (by decide), fun _ hnil => absurd hnil List.not_mem_nil⟩
  · simp only [selectorKeys, List.forall_mem_cons]
    exact ⟨.inr (.string (by decide)), .inl rfl, .inl rfl, fun _ hnil => absurd hnil List.not_mem_nil⟩
  · exact ⟨"selector", by decide, .string (by decide)⟩
  · exact fun _ hnil => absurd hnil List.not_mem_nil

theorem reads_documented_papers : ∃ config, ofJson "site.json" papers = .ok config ∧
    config.collections.map CollectionConfig.name = ["news", "new"] ∧
      config.collections.map CollectionConfig.patterns = [["news/*", "*.html"], ["new/*"]] ∧
        Json.ofText? (config.toJson.text ++ "\n") = some config.toJson := by
  obtain ⟨haccepts, -, hkept⟩ := reads_documented "site.json" papers
  have hread := (haccepts (describedSite documented_papers)).mpr ⟨documented_papers, rfl⟩
  refine ⟨_, hread, ?_, ?_, (hkept _ hread).2.1⟩
  · decide +kernel
  · decide +kernel

end SiteConfig

end Stencil
