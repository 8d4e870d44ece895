import Stencil.Proofs.Collection.Fold
import Stencil.Proofs.Collection.Renaming
import Stencil.Proofs.Merge.Slots
import Stencil.Proofs.Node.Same

namespace Stencil

open Merge Node

variable {α : Type} [Grade α] {chain : Scope} {around : Around} {s t : MergeState}

theorem Merge.Returns.lists_values {as bs ns : List Node} (hleft : s.left = []) (hright : s.right = [])
    (hp : Placed Nested chain as) (hbs : referencesOfList bs = [])
    (h : Returns (lists α chain around as bs) s ns t) :
    Placed Nested chain ns ∧ (∀ k, k ∈ Assoc.keys t.right ↔ k ∈ slots ns) ∧
      (∀ k ∈ Assoc.keys t.left, k ∈ slots ns) ∧
      ∀ k ∈ slots ns, k ∉ slots as → k ∈ Assoc.keys t.left := by
  obtain ⟨hn, hw⟩ := Returns.lists_settles (fun fuel _ => nested_closed (mergeNode_keeps fuel)) hbs h hp
  refine ⟨hn, fun k => ?_, fun k hk => ?_, hw.fresh⟩
  · rw [hw.right, hright, Assoc.keys_nil]
    simp
  · have hk := hw.subset k hk
    rw [hleft, Assoc.keys_nil] at hk
    simpa using hk

structure Rooted (ns : List Node) : Prop where
  placed : Placed Nested [] ns
  proper : ProperList ns

theorem Rooted.merged {layout page merged : List Node} (hl : Rooted layout)
    (hrefs : referencesOfList page = []) (hpage : ProperList page) (hleft : s.left = [])
    (hright : s.right = []) (h : Returns (lists α [] {} layout page) s merged t) : Rooted merged where
  placed := (Returns.lists_values hleft hright hl.placed hrefs h).1
  proper := properList_iff.mpr ((Returns.lists_keeps h).proper fun n hn => by
    rcases List.mem_append.mp hn with hn | hn
    · exact properList_iff.mp hl.proper n hn
    · exact properList_iff.mp hpage n hn)

def CompleteFor (ns : List Node) (fields : Fields) : Prop :=
  ∀ k ∈ slots ns, k ∈ Assoc.keys fields

theorem rooted_fits {pages : List (List Node)}
    (hpages : ∀ page ∈ pages, referencesOfList page = [] ∧ ProperList page) :
    Fits sameList (lists α [] {}) pages Rooted CompleteFor where
  fit hl hm hleft hright h := hl.merged (hpages _ hm).1 (hpages _ hm).2 hleft hright h
  same hl hm hleft hright h hsame := by
    have hmerged := hl.merged (hpages _ hm).1 (hpages _ hm).2 hleft hright h
    obtain ⟨-, hvalues, -⟩ := Returns.lists_values hleft hright hl.placed (hpages _ hm).1 h
    exact fun k hk => (hvalues k).mpr (slots_of_sameList hsame hmerged.proper k hk)
  read hl hm hleft hright h := by
    obtain ⟨-, hvalues, -⟩ := Returns.lists_values hleft hright hl.placed (hpages _ hm).1 h
    exact fun k hk => (hvalues k).mpr hk
  fill {template source s merged t record} hl hm hleft hright h hrecord := by
    obtain ⟨-, -, -, hfresh⟩ := Returns.lists_values hleft hright hl.placed (hpages _ hm).1 h
    intro k hk
    rw [mem_keys_mergeFields]
    by_cases hold : k ∈ slots template
    · exact .inl (hrecord k hold)
    · exact .inr (hfresh k hk hold)

namespace Collection

theorem Returns.mergeDocuments {name : String} {progress : Bool} {first : Document}
    {others : List Document} {collection : Collection}
    (h : Returns (mergeDocuments α name progress first others) s collection t) :
    ∃ layout grown records names u v w, Returns
        (fold α name progress others.length 0 first.layout others) s layout u ∧
      Returns (extract α layout (first :: others)) u (grown, records) v ∧
      Returns (Collection.names grown records) v names w ∧
      collection = {
        name, layout := names.renameNodes grown
        pages := ((first :: others).zip records).map fun (d, fields) =>
          { pathname := d.pathname, fields := names.renameRecord [] fields, contents := d.contents } } := by
  simp only [Collection.mergeDocuments, returns_bind, returns_pure] at h
  obtain ⟨layout, u, hfold, ⟨grown, records⟩, v, hextract, names, w, hnames, _, _, -, _, _, -, rfl, -⟩ := h
  exact ⟨layout, grown, records, names, u, v, w, hfold, hextract, hnames, rfl⟩

theorem Returns.ofDocuments {name : String} {progress : Bool} {documents : List Document}
    {collection : Collection} (h : Returns (ofDocuments α name progress documents) s collection t) :
    ∃ first others, documents = first :: others ∧
      Returns (Collection.mergeDocuments α name progress first others) (s.addEvent (.chapter name))
        collection t := by
  unfold Collection.ofDocuments at h
  split at h
  · split at h
    · simp at h
    · simp only [emit, returns_bind, returns_modify] at h
      obtain ⟨_, _, rfl, h⟩ := h
      exact ⟨_, _, rfl, h⟩
  · simp at h

theorem Returns.mergeDocuments_complete {name : String} {progress : Bool} {first : Document}
    {others : List Document} {collection : Collection}
    (hdocs : ∀ d ∈ first :: others, referencesOfList d.layout = [] ∧ ProperList d.layout)
    (h : Returns (Collection.mergeDocuments α name progress first others) s collection t) :
    collection.pages.map PageRecord.pathname = (first :: others).map Document.pathname ∧
      ∀ page ∈ collection.pages, CompleteFor collection.layout page.fields := by
  obtain ⟨layout, grown, records, names, u, v, w, hfold, hextract, -, rfl⟩ := Returns.mergeDocuments h
  have hall : ∀ page ∈ (first :: others).map Document.layout,
      referencesOfList page = [] ∧ ProperList page := by
    simpa only [List.mem_map, forall_exists_index, and_imp, forall_apply_eq_imp_iff₂] using hdocs
  -- fold first, then read every page through the layout that came out
  have hkept : KeptBy α (fun _ => Rooted) (others.map Document.layout) := fun hl hm hleft hright hmerge =>
    hl.merged (hall _ (List.mem_cons_of_mem _ hm)).1 (hall _ (List.mem_cons_of_mem _ hm)).2 hleft hright
      hmerge
  have hfirst : Rooted first.layout :=
    ⟨.of_references_nil (hdocs first (by simp)).1, (hdocs first (by simp)).2⟩
  obtain ⟨hgrown, hlength, hcomplete⟩ :=
    (rooted_fits hall).extract (hkept.fold hfirst hfold) hextract
  have hroot : ∀ r ∈ ownReferencesOfList grown, r.Direct [] := fun r hr => by
    obtain ⟨k, -, hk⟩ := hgrown.placed.own r hr
    exact ⟨k, hk⟩
  dsimp only
  constructor
  · have hnames : (PageRecord.pathname ∘ fun ((d, fields) : Document × Fields) =>
        PageRecord.mk d.pathname (names.renameRecord [] fields) d.contents) =
        Document.pathname ∘ Prod.fst := rfl
    have hzip : ((first :: others).zip records).map Prod.fst = first :: others := by
      apply List.map_fst_zip
      simp [hlength]
    rw [List.map_map, hnames, ← List.map_map, hzip]
  · intro page hpage
    obtain ⟨⟨d, fields⟩, hmem, rfl⟩ := List.mem_map.mp hpage
    exact NameMap.mem_keys_renameRecord hroot (hcomplete fields (List.of_mem_zip hmem).2)

end Collection

/-- Merging a page into a layout gives the page a value for each slot of the outcome and for nothing else, and
the layout's record one for every slot that is new. So in a collection no page lacks the value of a slot. -/
theorem slots_recorded (α : Type) [Grade α] :
    (∀ {chain : Scope} {around : Around} {as bs ns : List Node} {s t : MergeState},
      s.left = [] → s.right = [] →
      (∀ r ∈ ownReferencesOfList as, ∃ k, Key.Normal k ∧ r = chain ++ [k]) →
      (∀ b ∈ ownBlocksOfList as, ∀ q ∈ b.2.2.references, q.Inside b.2.1) →
      referencesOfList bs = [] → Returns (lists α chain around as bs) s ns t →
      (∀ k, k ∈ Assoc.keys t.right ↔ k ∈ slots ns) ∧ (∀ k ∈ Assoc.keys t.left, k ∈ slots ns) ∧
        ∀ k ∈ slots ns, k ∉ slots as → k ∈ Assoc.keys t.left) ∧
    ∀ {name : String} {progress : Bool} {documents : List Document} {collection : Collection}
      {s t : MergeState},
      (∀ d ∈ documents, referencesOfList d.layout = [] ∧ ProperList d.layout) →
      Returns (Collection.ofDocuments α name progress documents) s collection t →
      collection.pages.map PageRecord.pathname = documents.map Document.pathname ∧
        ∀ page ∈ collection.pages, ∀ k ∈ slots collection.layout, k ∈ Assoc.keys page.fields := by
  constructor
  · intro chain around as bs ns s t hleft hright hown hblocks hbs h
    exact (Returns.lists_values hleft hright ⟨hown, hblocks⟩ hbs h).2
  · intro name progress documents collection s t hdocs h
    obtain ⟨first, others, rfl, hmerge⟩ := Collection.Returns.ofDocuments h
    exact Collection.Returns.mergeDocuments_complete hdocs hmerge

theorem slots_recorded_title :
    (∃ ns t, Returns (lists Rat [] {} [.element ⟨"title", []⟩ [.slot .plain ["title"]]]
        [.element ⟨"title", []⟩ [.text "Ada"], .element ⟨"em", []⟩ [.text "new"]]) {} ns t ∧
      slots ns = ["title", "em"] ∧ (∀ k, k ∈ Assoc.keys t.right ↔ k ∈ slots ns) ∧
      (∀ k ∈ Assoc.keys t.left, k ∈ slots ns) ∧
      ∀ k ∈ slots ns, k ∉ ["title"] → k ∈ Assoc.keys t.left) ∧
    ∃ collection t, Returns (Collection.ofDocuments Rat "notes" false
        [⟨"a.html", [.element ⟨"title", []⟩ [.text "Ada"]], []⟩,
          ⟨"b.html", [.element ⟨"title", []⟩ [.text "Bob"]], []⟩]) {} collection t ∧
      slots collection.layout = ["title"] ∧
      collection.pages.map PageRecord.pathname = ["a.html", "b.html"] ∧
      ∀ page ∈ collection.pages, ∀ k ∈ slots collection.layout, k ∈ Assoc.keys page.fields := by
  constructor
  · obtain ⟨ns, t, h, hslots⟩ := exists_returns (f := slots) (y := ["title", "em"])
      (m := lists Rat [] {} [.element ⟨"title", []⟩ [.slot .plain ["title"]]]
        [.element ⟨"title", []⟩ [.text "Ada"], .element ⟨"em", []⟩ [.text "new"]]) (s := {})
      (by decide +kernel)
    have hown : ∀ r ∈ ownReferencesOfList [.element ⟨"title", []⟩ [.slot .plain ["title"]]],
        ∃ k, Key.Normal k ∧ r = ([] : Scope) ++ [k] := by
      intro r hr
      have hr : r = ["title"] := by simpa [ownReferencesOfList, ownReferences] using hr
      exact ⟨"title", show Key.normalize "title" = "title" by decide +kernel, hr⟩
    exact ⟨ns, t, h, hslots, (slots_recorded Rat).1 rfl rfl hown
      (by simp [ownBlocksOfList, ownBlocks]) rfl h⟩
  · obtain ⟨collection, t, h, hslots⟩ := exists_returns (f := fun c => slots c.layout) (y := ["title"])
      (m := Collection.ofDocuments Rat "notes" false
        [⟨"a.html", [.element ⟨"title", []⟩ [.text "Ada"]], []⟩,
          ⟨"b.html", [.element ⟨"title", []⟩ [.text "Bob"]], []⟩]) (s := {})
      (by decide +kernel)
    refine ⟨collection, t, h, hslots, (slots_recorded Rat).2 ?_ h⟩
    intro d hd
    simp only [List.mem_cons, List.not_mem_nil, or_false] at hd
    rcases hd with rfl | rfl
    · exact ⟨rfl, ⟨List.nodup_nil, trivial, trivial⟩, trivial⟩
    · exact ⟨rfl, ⟨List.nodup_nil, trivial, trivial⟩, trivial⟩

end Stencil
