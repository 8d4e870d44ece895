import Stencil.Proofs.Collection.Built
import Stencil.Proofs.Merge.Learning
import Stencil.Proofs.Registry.Coverage

namespace Stencil

open Merge Node Registry

variable {α : Type} [Grade α] {s t : MergeState}

def Known (g : Registry) (ns : List Node) : Prop :=
  ∀ r ∈ referencesOfList ns, ∃ scope key, r = scope ++ [key] ∧ key ∈ g.keys scope

theorem Known.grows {g g' : Registry} {ns : List Node} (h : Known g ns) (hg : Grows g g') :
    Known g' ns := by
  intro r hr
  obtain ⟨scope, key, he, hk⟩ := h r hr
  exact ⟨scope, key, he, hg _ _ hk⟩

theorem Known.of_references_nil (g : Registry) {ns : List Node} (h : referencesOfList ns = []) :
    Known g ns := by
  intro r hr
  rw [h] at hr
  cases hr

theorem Known.knows {g : Registry} {ns : List Node} (h : Known g ns) :
    ∀ r ∈ referencesOfList ns, g.Knows r := by
  intro r hr
  obtain ⟨scope, key, rfl, hk⟩ := h r hr
  exact knows_concat.mpr hk

theorem Known.inside {g : Registry} {ns : List Node} (h : Known g ns) :
    ∀ r ∈ referencesOfList ns, r.Inside [] := by
  intro r hr
  obtain ⟨scope, key, rfl, -⟩ := h r hr
  cases scope with
  | nil => exact ⟨key, [], rfl⟩
  | cons k rest => exact ⟨k, rest ++ [key], rfl⟩

theorem Known.merged {layout page merged : List Node} (hl : Known s.registry layout)
    (hpage : referencesOfList page = []) (h : Returns (lists α [] {} layout page) s merged t) :
    Known t.registry merged := by
  have hrefs : referencesOfList (layout ++ page) = referencesOfList layout := by
    rw [referencesOfList_append, hpage, List.append_nil]
  intro r hr
  have hknows := h.lists_learns.knows
    (by rw [← referencesOfList_append, hrefs]; exact hl.knows) r hr
  obtain ⟨k, rest, rfl⟩ := (Returns.lists_keeps h).inside [] (List.prefix_refl _)
    (by rw [hrefs]; exact hl.inside) r hr
  rcases List.eq_nil_or_concat rest with rfl | ⟨scope, key, rfl⟩
  · exact ⟨[], k, rfl, hknows rfl⟩
  · refine ⟨k :: scope, key, by simp, hknows (by simp)⟩

theorem Known.layouts {layout merged : List Node} {pages : List (List Node)}
    (hpages : ∀ page ∈ pages, referencesOfList page = []) (hl : Known s.registry layout)
    (h : Returns (pages.foldlM (Collection.mergeLayout α) layout) s merged t) :
    Known t.registry merged :=
  Collection.KeptBy.layouts (fun hl hm _ _ h => hl.merged (hpages _ hm) h) hl h

theorem Known.fold {layout merged : List Node} {documents : List Document} {name : String}
    {progress : Bool} {total count : Nat} (hdocs : ∀ d ∈ documents, referencesOfList d.layout = [])
    (hl : Known s.registry layout)
    (h : Returns (Collection.fold α name progress total count layout documents) s merged t) :
    Known t.registry merged := by
  refine Collection.KeptBy.fold (fun {layout page merged s t} hl hm _ _ h => hl.merged ?_ h) hl h
  obtain ⟨d, hd, rfl⟩ := List.mem_map.mp hm
  exact hdocs d hd

theorem Known.extract {layout : List Node} {documents : List Document} {x : List Node × List Fields}
    (hdocs : ∀ d ∈ documents, referencesOfList d.layout = []) (hl : Known s.registry layout)
    (h : Returns (Collection.extract α layout documents) s x t) : Known t.registry x.1 := by
  refine Returns.extract_registry Known (fun ht hm hmerge => ?_) hl h
  obtain ⟨d, hd, rfl⟩ := List.mem_map.mp hm
  exact ⟨ht.merged (hdocs d hd) hmerge, ht.grows hmerge.lists_learns.grows⟩

theorem Known.named {g : Registry} {ns : List Node} {wanted : Scope → String → Bool} (h : Known g ns)
    (hwanted : ∀ scope key, scope ++ [key] ∈ referencesOfList ns → wanted scope key = true) :
    ∀ r ∈ referencesOfList ns, ∃ scope key name, r = scope ++ [key] ∧
      (g.displayNames wanted).name? scope key = some name := by
  intro r hr
  obtain ⟨scope, key, rfl, hk⟩ := h r hr
  obtain ⟨name, hname⟩ := Option.isSome_iff_exists.mp (displayNames_named hk (hwanted scope key hr))
  exact ⟨scope, key, name, rfl, hname⟩

theorem Collection.Built.known {name : String} {progress : Bool} {documents : List Document}
    {layout : List Node} {records : List Fields} {registry : Registry} {names : NameMap}
    {collection : Collection} (hdocs : ∀ d ∈ documents, referencesOfList d.layout = [])
    (h : Built α name progress documents s layout records registry names collection) :
    ∀ r ∈ referencesOfList layout, ∃ scope key name, r = scope ++ [key] ∧
      names.name? scope key = some name := by
  cases h with
  | @mk first _ _ _ _ _ _ _ _ v hfold hextract hregistry hnames =>
    subst hregistry hnames
    have hfirst := Known.of_references_nil (s.addEvent (.chapter name)).registry (hdocs first (by simp))
    have hfolded := hfirst.fold (fun d hd => hdocs d (List.mem_cons_of_mem _ hd)) hfold
    have hlayout := (hfolded.extract hdocs hextract).grows (grows_records records v.registry)
    exact hlayout.named fun scope key hk => by simpa using hk

/-- Where the registry knows every reference of two trees, it knows every reference of what they are
merged into, and it forgets nothing. So in a fold of pages, and in a collection, every reference of the
layout gets a name. -/
theorem references_known (α : Type) [Grade α] :
    (∀ {chain : Scope} {around : Around} {as bs ns : List Node} {s t : MergeState},
      (∀ scope key, scope ++ [key] ∈ referencesOfList (as ++ bs) → s.registry.has scope key = true) →
      Returns (lists α chain around as bs) s ns t →
      (∀ scope key, scope ++ [key] ∈ referencesOfList ns → t.registry.has scope key = true) ∧
        ∀ scope key, s.registry.has scope key = true → t.registry.has scope key = true) ∧
    (∀ {first layout : List Node} {pages : List (List Node)} {wanted : Scope → String → Bool}
      {s t : MergeState},
      (∀ page ∈ first :: pages, referencesOfList page = []) →
      Returns (pages.foldlM (Collection.mergeLayout α) first) s layout t →
      (∀ scope key, scope ++ [key] ∈ referencesOfList layout → wanted scope key = true) →
      ∀ r ∈ referencesOfList layout, ∃ scope key name, r = scope ++ [key] ∧
        (t.registry.displayNames wanted).name? scope key = some name) ∧
    ∀ {name : String} {progress : Bool} {documents : List Document} {collection : Collection}
      {s t : MergeState},
      (∀ d ∈ documents, referencesOfList d.layout = []) →
      Returns (Collection.ofDocuments α name progress documents) s collection t →
      ∃ layout records registry names,
        Collection.Built α name progress documents s layout records registry names collection ∧
        ∀ r ∈ referencesOfList layout, ∃ scope key name, r = scope ++ [key] ∧
          names.name? scope key = some name := by
  refine ⟨fun {chain around as bs ns s t} hin h => ?_, fun hpages h hwanted => ?_,
    fun {name progress documents collection s t} hdocs h => ?_⟩
  · have hlearns := h.lists_learns
    have hin : ∀ r ∈ referencesOfList as ++ referencesOfList bs, s.registry.Knows r := by
      rintro r hr scope key rfl
      rw [← referencesOfList_append] at hr
      exact has_iff.mp (hin scope key hr)
    constructor
    · intro scope key hk
      exact has_iff.mpr (knows_concat.mp (hlearns.knows hin _ hk))
    · intro scope key hk
      exact has_iff.mpr (hlearns.grows scope key (has_iff.mp hk))
  · rw [List.forall_mem_cons] at hpages
    exact ((Known.of_references_nil _ hpages.1).layouts hpages.2 h).named hwanted
  · obtain ⟨layout, records, registry, names, hbuilt⟩ := Collection.Returns.built h
    exact ⟨layout, records, registry, names, hbuilt, hbuilt.known hdocs⟩

theorem references_known_title :
    (∃ ns t, Returns (lists Rat [] {} [.element ⟨"title", []⟩ [.slot .plain ["title"]]]
        [.element ⟨"title", []⟩ [.text "Ada"], .element ⟨"em", []⟩ [.text "new"]])
        { registry := Registry.record {} [] "title" .text none none } ns t ∧
      referencesOfList ns = [["title"], ["em"]] ∧
      (∀ scope key, scope ++ [key] ∈ referencesOfList ns → t.registry.has scope key = true) ∧
      ∀ scope key, (Registry.record {} [] "title" .text none none).has scope key = true →
        t.registry.has scope key = true) ∧
    (∃ layout t, Returns ([[.element ⟨"title", []⟩ [.text "Bob"]]].foldlM (Collection.mergeLayout Rat)
        [.element ⟨"title", []⟩ [.text "Ada"]]) {} layout t ∧ referencesOfList layout = [["title"]] ∧
      ∀ r ∈ referencesOfList layout, ∃ scope key name, r = scope ++ [key] ∧
        (t.registry.displayNames fun _ _ => true).name? scope key = some name) ∧
    ∃ collection t, Returns (Collection.ofDocuments Rat "notes" false
        [⟨"a.html", [.element ⟨"title", []⟩ [.text "Ada"]], []⟩,
          ⟨"b.html", [.element ⟨"title", []⟩ [.text "Bob"]], []⟩]) {} collection t ∧
      ∃ (layout : List Node) (names : NameMap), collection.layout = names.renameNodes layout ∧
        ∀ r ∈ referencesOfList layout, ∃ scope key name, r = scope ++ [key] ∧
          names.name? scope key = some name := by
  refine ⟨?_, ?_, ?_⟩
  · obtain ⟨ns, t, h, hrefs⟩ := exists_returns (f := referencesOfList) (y := [["title"], ["em"]])
      (m := lists Rat [] {} [.element ⟨"title", []⟩ [.slot .plain ["title"]]]
        [.element ⟨"title", []⟩ [.text "Ada"], .element ⟨"em", []⟩ [.text "new"]])
      (s := { registry := Registry.record {} [] "title" .text none none }) (by decide +kernel)
    refine ⟨ns, t, h, hrefs, (references_known Rat).1 (fun scope key hk => ?_) h⟩
    have hk : scope ++ [key] = [] ++ ["title"] := by
      simpa [referencesOfList, references] using hk
    obtain ⟨rfl, hkey⟩ := List.append_inj' hk rfl
    cases hkey
    decide
  · obtain ⟨layout, t, h, hrefs⟩ := exists_returns (f := referencesOfList) (y := [["title"]])
      (m := [[.element ⟨"title", []⟩ [.text "Bob"]]].foldlM (Collection.mergeLayout Rat)
        [.element ⟨"title", []⟩ [.text "Ada"]]) (s := {}) (by decide +kernel)
    exact ⟨layout, t, h, hrefs, (references_known Rat).2.1
      (by simp [referencesOfList, references]) h fun _ _ _ => rfl⟩
  · obtain ⟨collection, t, h, -⟩ := exists_returns (f := fun c => referencesOfList c.layout)
      (y := [["title"]]) (m := Collection.ofDocuments Rat "notes" false
        [⟨"a.html", [.element ⟨"title", []⟩ [.text "Ada"]], []⟩,
          ⟨"b.html", [.element ⟨"title", []⟩ [.text "Bob"]], []⟩]) (s := {}) (by decide +kernel)
    obtain ⟨layout, _, _, names, hbuilt, hnamed⟩ := (references_known Rat).2.2
      (by simp [referencesOfList, references]) h
    exact ⟨collection, t, h, layout, names, hbuilt.layout_eq, hnamed⟩

end Stencil
