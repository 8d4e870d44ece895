import Stencil.Proofs.Collection.Complete

namespace Stencil.Collection

open Merge Node

variable {α : Type} [Grade α] {s t : MergeState}

/-- The documents are folded into a layout, and all of them are read through it, which may make it grow. What
they hold is credited to the slots in the registry; then the slots get their names. -/
inductive Built (α : Type) [Grade α] (name : String) (progress : Bool) :
    List Document → MergeState → List Node → List Fields → Registry → NameMap → Collection → Prop
  | mk {first : Document} {others : List Document} {folded layout : List Node} {records : List Fields}
    {registry : Registry} {names : NameMap} {s u v : MergeState} :
    Returns (fold α name progress others.length 0 first.layout others) (s.addEvent (.chapter name)) folded u →
    Returns (extract α folded (first :: others)) u (layout, records) v →
    registry = records.foldl (Registry.recordFields []) v.registry →
    names = registry.displayNames (fun scope key => (referencesOfList layout).contains (scope ++ [key])) →
    Built α name progress (first :: others) s layout records registry names
      { name, layout := names.renameNodes layout, pages := ((first :: others).zip records).map fun (d, fields) =>
        { pathname := d.pathname, fields := names.renameRecord [] fields, contents := d.contents } }

theorem Returns.built {name : String} {progress : Bool} {documents : List Document} {collection : Collection}
    (h : Returns (Collection.ofDocuments α name progress documents) s collection t) :
    ∃ layout records registry names,
      Built α name progress documents s layout records registry names collection := by
  obtain ⟨first, others, rfl, hmerge⟩ := Returns.ofDocuments h
  obtain ⟨folded, layout, records, names, u, v, w, hfold, hextract, hnames, rfl⟩ :=
    Returns.mergeDocuments hmerge
  simp only [Collection.names, returns_bind, returns_modify, returns_get, returns_pure] at hnames
  obtain ⟨_, _, rfl, _, _, ⟨rfl, rfl⟩, hnames, -⟩ := hnames
  exact ⟨layout, records, _, names, .mk hfold hextract rfl hnames⟩

section Built

variable {name : String} {progress : Bool} {documents : List Document} {layout : List Node}
  {records : List Fields} {registry : Registry} {names : NameMap} {collection : Collection}
  (h : Built α name progress documents s layout records registry names collection)

include h

theorem Built.layout_eq : collection.layout = names.renameNodes layout := by
  cases h
  rfl

theorem Built.names_eq : names =
    registry.displayNames fun scope key => (referencesOfList layout).contains (scope ++ [key]) := by
  cases h
  assumption

theorem Built.name_eq : collection.name = name := by
  cases h
  rfl

theorem Built.pathnames_eq : collection.pages.map PageRecord.pathname = documents.map Document.pathname := by
  cases h with
  | @mk first others _ _ records _ _ _ _ _ _ hextract =>
    have hlength : records.length = (first :: others).length := by
      rw [hextract.extract_length, List.length_map]
    have hzip : ((first :: others).zip records).map Prod.fst = first :: others :=
      List.map_fst_zip hlength.ge
    conv_rhs => rw [← hzip]
    rw [List.map_map, List.map_map]
    rfl

theorem Built.fields_eq {page : PageRecord} (hpage : page ∈ collection.pages) :
    ∃ fields ∈ records, page.fields = names.renameRecord [] fields := by
  cases h
  obtain ⟨⟨d, fields⟩, hmem, rfl⟩ := List.mem_map.mp hpage
  exact ⟨fields, (List.of_mem_zip hmem).2, rfl⟩

end Built

end Stencil.Collection
