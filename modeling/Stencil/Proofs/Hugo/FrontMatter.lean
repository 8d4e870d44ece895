import Stencil.Hugo.Export
import Stencil.Proofs.Collection.Built
import Stencil.Proofs.Registry.Coverage

namespace Stencil

open Merge Node

namespace Hugo

variable {folder : String} {fields : Fields}

theorem lookup_pageFields_type : (pageFields folder fields).lookup "type" = some (.text folder) :=
  Assoc.lookup_set_self ..

theorem lookup_pageFields_of_ne {key : String} (h : key ≠ "type") :
    (pageFields folder fields).lookup key = fields.lookup key :=
  Assoc.lookup_set_of_ne h ..

theorem pageFields_keeps_iff :
    (∀ key v, fields.lookup key = some v → (pageFields folder fields).lookup key = some v) ↔
      ∀ v, fields.lookup "type" = some v → v = .text folder := by
  constructor
  · intro h v hv
    have hkept := h "type" v hv
    rw [lookup_pageFields_type] at hkept
    exact (Option.some.inj hkept).symm
  · intro h key v hv
    by_cases hk : key = "type"
    · rw [hk] at hv ⊢
      rw [lookup_pageFields_type, h v hv]
    · rw [lookup_pageFields_of_ne hk, hv]

end Hugo

theorem numbered_ne_type (base : String) (i : Nat) : numbered base i ≠ "type" := by
  intro h
  have hmem : '_' ∈ (numbered base i).toList := by
    simp [numbered]
  rw [h] at hmem
  revert hmem
  decide

theorem type_key {g : Registry} {wanted : Scope → String → Bool} {fields : Fields}
    (h : "type" ∈ Assoc.keys ((g.displayNames wanted).renameRecord [] fields)) :
    ∃ key ∈ Assoc.keys fields, (g.displayNames wanted).nameOf [] key = "type" ∧
      (key = "type" ∨ ∃ e ∈ g.entries [], e.key = key ∧ "type" ∈ (e.candidates false).map Key.normalize) := by
  rw [NameMap.renameRecord, NameMap.mem_keys_renameFields] at h
  obtain ⟨key, hkey, hname⟩ := h.resolve_left (by simp)
  refine ⟨key, hkey, hname, ?_⟩
  cases hn : (g.displayNames wanted).name? [] key with
  | none =>
    left
    unfold NameMap.name? at hn
    rwa [NameMap.nameOf, hn] at hname
  | some name =>
    right
    rw [NameMap.nameOf_of_name? hn] at hname
    subst hname
    obtain ⟨e, he, hek, hsuits⟩ := Registry.displayNames_suits hn
    refine ⟨e, he, hek, hsuits.resolve_right ?_⟩
    rintro ⟨base, i, htype⟩
    exact numbered_ne_type base i htype.symm

/-- In every collection each value of each page reaches the front matter unless it goes by the name `type` and
is not the name of the collection's folder. It has this name only if it is a candidate of its key, or if the
key is called so. -/
theorem exported_values_iff (α : Type) [Grade α] {name : String} {progress : Bool}
    {documents : List Document} {collection : Collection} {s t : MergeState}
    (h : Returns (Collection.ofDocuments α name progress documents) s collection t) :
    ∃ layout records registry names,
      Collection.Built α name progress documents s layout records registry names collection ∧
      ∀ page ∈ collection.pages, ∃ fields ∈ records, page.fields = names.renameRecord [] fields ∧
        (∀ folder,
          (∀ key, key ≠ "type" → (Hugo.pageFields folder page.fields).lookup key = page.fields.lookup key) ∧
          ((∀ key v, page.fields.lookup key = some v →
              (Hugo.pageFields folder page.fields).lookup key = some v) ↔
            ∀ v, page.fields.lookup "type" = some v → v = .text folder)) ∧
        ("type" ∈ Assoc.keys page.fields → ∃ key ∈ Assoc.keys fields, names.nameOf [] key = "type" ∧
          (key = "type" ∨ ∃ e ∈ registry.entries [], e.key = key ∧
            "type" ∈ (e.candidates false).map Key.normalize)) := by
  obtain ⟨layout, records, registry, names, hbuilt⟩ := Collection.Returns.built h
  refine ⟨layout, records, registry, names, hbuilt, fun page hpage => ?_⟩
  obtain ⟨fields, hfields, hpage⟩ := hbuilt.fields_eq hpage
  refine ⟨fields, hfields, hpage, fun folder => ⟨fun key => ?_, ?_⟩, fun htype => ?_⟩
  · exact Hugo.lookup_pageFields_of_ne
  · exact Hugo.pageFields_keeps_iff
  · rw [hpage, hbuilt.names_eq] at htype
    rw [hbuilt.names_eq]
    exact type_key htype

theorem exported_values_title :
    ∃ collection t, Returns (Collection.ofDocuments Rat "notes" false
        [⟨"a.html", [.element ⟨"title", []⟩ [.text "Ada"]], []⟩,
          ⟨"b.html", [.element ⟨"title", []⟩ [.text "Bob"]], []⟩]) {} collection t ∧
      collection.pages.map (fun page => Assoc.keys page.fields) = [["title"], ["title"]] ∧
      ∀ page ∈ collection.pages, ∀ key v, page.fields.lookup key = some v →
        (Hugo.pageFields "notes" page.fields).lookup key = some v := by
  obtain ⟨collection, t, h, hkeys⟩ := exists_returns
    (f := fun c => c.pages.map fun page => Assoc.keys page.fields) (y := [["title"], ["title"]])
    (m := Collection.ofDocuments Rat "notes" false
      [⟨"a.html", [.element ⟨"title", []⟩ [.text "Ada"]], []⟩,
        ⟨"b.html", [.element ⟨"title", []⟩ [.text "Bob"]], []⟩]) (s := {}) (by decide +kernel)
  refine ⟨collection, t, h, hkeys, fun page hpage => ?_⟩
  obtain ⟨_, _, _, _, -, hall⟩ := exported_values_iff Rat h
  obtain ⟨_, -, -, hfolder, -⟩ := hall page hpage
  refine (hfolder "notes").2.mpr fun v hv => ?_
  have hmem : Assoc.keys page.fields ∈ [["title"], ["title"]] := hkeys ▸ List.mem_map_of_mem hpage
  have hno : page.fields.lookup "type" = none := by
    rw [Assoc.lookup_eq_none_iff]
    rw [List.mem_pair.mp hmem |>.elim id id]
    decide
  rw [hno] at hv
  cases hv

def Value.text? : Value → Option String
  | .text s => some s
  | _ => none

theorem exported_type_lost :
    ∃ collection t, Returns (Collection.ofDocuments Rat "forms" false
        [⟨"a.html", [.element ⟨"input", [.fixed "type" "text"]⟩ []], []⟩,
          ⟨"b.html", [.element ⟨"input", [.fixed "type" "checkbox"]⟩ []], []⟩]) {} collection t ∧
      Hugo.render collection.layout = .ok "<input type=\"\x7b\x7b .Params.type \x7d\x7d\">" ∧
      collection.pages.map (fun page => (page.fields.lookup "type").bind Value.text?) =
        [some "text", some "checkbox"] ∧
      collection.pages.map (fun page =>
        ((Hugo.pageFields collection.name page.fields).lookup "type").bind Value.text?) =
        [some "forms", some "forms"] := by
  obtain ⟨collection, t, h, hall⟩ := exists_returns
    (f := fun c => (Hugo.render c.layout,
      c.pages.map fun page => (page.fields.lookup "type").bind Value.text?,
      c.pages.map fun page => ((Hugo.pageFields c.name page.fields).lookup "type").bind Value.text?))
    (y := (.ok "<input type=\"\x7b\x7b .Params.type \x7d\x7d\">", [some "text", some "checkbox"],
      [some "forms", some "forms"]))
    (m := Collection.ofDocuments Rat "forms" false
      [⟨"a.html", [.element ⟨"input", [.fixed "type" "text"]⟩ []], []⟩,
        ⟨"b.html", [.element ⟨"input", [.fixed "type" "checkbox"]⟩ []], []⟩]) (s := {}) (by decide +kernel)
  simp only [Prod.mk.injEq] at hall
  exact ⟨collection, t, h, hall⟩

end Stencil
