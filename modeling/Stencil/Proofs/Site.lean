import Mathlib.Data.List.Perm.Basic
import Stencil.Proofs.Collection.Built
import Stencil.Proofs.Failure
import Stencil.Proofs.FileTree
import Stencil.Site.Basic

namespace Stencil.Site

open Merge

section Listing

variable {t : FileTree}

theorem parts_of_mem_listing (h : t.Proper) {pathname : String} (hmem : pathname ∈ listing t) :
    pathname = "/".intercalate (Pathname.ofText pathname).parts ∧
      ∀ n ∈ (Pathname.ofText pathname).parts, FileTree.IsName n := by
  obtain ⟨path, hpath, rfl⟩ := List.mem_map.mp hmem
  rw [List.mem_mergeSort, List.mem_filter] at hpath
  have hnames := FileTree.names_files h hpath.1
  have hparts : (Pathname.ofText ("/".intercalate path)).parts = path :=
    Pathname.parts_intercalate fun n hn => (hnames n hn).1
  rw [hparts]
  exact ⟨rfl, hnames⟩

theorem nodup_listing (h : t.Proper) : (listing t).Nodup := by
  have hpaths : ((t.files.map Prod.fst).filter fun path => !isHidden path).Nodup :=
    (FileTree.nodup_filesBelow t [] h).filter _
  apply List.Nodup.map_on
  · intro path hpath other hother heq
    rw [List.mem_mergeSort] at hpath hother
    have hparts {path : List String} (hmem : path ∈ (t.files.map Prod.fst).filter fun path => !isHidden path) :
        (Pathname.ofText ("/".intercalate path)).parts = path :=
      Pathname.parts_intercalate fun n hn => (FileTree.names_files h (List.mem_of_mem_filter hmem) n hn).1
    rw [← hparts hpath, heq, hparts hother]
  · exact (List.mergeSort_perm _ _).nodup_iff.mpr hpaths

theorem nodup_parts (h : t.Proper) {pathnames : List String} (hnodup : pathnames.Nodup)
    (hmem : ∀ p ∈ pathnames, p ∈ listing t) : (pathnames.map fun p => (Pathname.ofText p).parts).Nodup := by
  apply hnodup.map_on
  intro p hp q hq heq
  rw [(parts_of_mem_listing h (hmem p hp)).1, heq, ← (parts_of_mem_listing h (hmem q hq)).1]

theorem listing_of_sorted (paths : List (List String))
    (hpaths : ((t.files.map Prod.fst).filter fun path => !isHidden path) = paths)
    (hsorted : paths.Pairwise fun path other => comesFirst path other = true) :
    listing t = paths.map ("/".intercalate ·) := by
  rw [listing, hpaths, List.mergeSort_of_pairwise hsorted]

end Listing

section Deal

theorem deal_configs (configs : List CollectionConfig) (pages : List String) :
    (deal configs pages).1.map Prod.fst = configs := by
  induction configs generalizing pages with
  | nil => rfl
  | cons c configs ih =>
    simp only [deal, List.map_cons, ih]

theorem deal_perm (configs : List CollectionConfig) (pages : List String) :
    ((deal configs pages).1.flatMap Prod.snd ++ (deal configs pages).2).Perm pages := by
  induction configs generalizing pages with
  | nil => exact .refl _
  | cons c configs ih =>
    simp only [deal, List.flatMap_cons, List.partition_eq_filter_filter, List.append_assoc]
    exact ((ih _).append_left _).trans (List.filter_append_perm c.takes pages)

theorem spec_of_mem_deal {configs : List CollectionConfig} {pages : List String} (hpages : pages.Nodup)
    {g : CollectionConfig × List String} (hg : g ∈ (deal configs pages).1) :
    g.1 ∈ configs ∧ g.2.Nodup ∧ ∀ p ∈ g.2, p ∈ pages := by
  have hperm := deal_perm configs pages
  have hall : ((deal configs pages).1.flatMap Prod.snd).Nodup :=
    (List.nodup_append.mp (hperm.nodup_iff.mpr hpages)).1
  refine ⟨?_, (List.nodup_flatMap.mp hall).1 g hg, fun p hp => ?_⟩
  · rw [← deal_configs configs pages]
    exact List.mem_map_of_mem hg
  · exact hperm.subset (List.mem_append_left _ (List.mem_flatMap.mpr ⟨g, hg, hp⟩))

theorem deal_standard {pages : List String} (h : ∀ p ∈ pages, Glob.matchesText "*.html" p = true) :
    deal SiteConfig.standard.collections pages = ([(⟨"pages", ["*.html"], none⟩, pages)], []) := by
  have htaken : pages.filter (CollectionConfig.takes ⟨"pages", ["*.html"], none⟩) = pages :=
    List.filter_eq_self.mpr fun p hp => by simp [CollectionConfig.takes, h p hp]
  have hleft : pages.filter (not ∘ CollectionConfig.takes ⟨"pages", ["*.html"], none⟩) = [] :=
    List.filter_eq_nil_iff.mpr fun p hp => by simp [CollectionConfig.takes, h p hp]
  simp only [SiteConfig.standard, deal, List.partition_eq_filter_filter, htaken, hleft]

end Deal

section Build

variable {α : Type} [Grade α] {config : SiteConfig} {read : String → Except Failure String} {progress : Bool}
  {s t : MergeState}

theorem pathnames_of_documents {region : Option RegionConfig} {pathnames : List String}
    {documents : List Document} (h : pathnames.mapM (document read region) = .ok documents) :
    documents.map Document.pathname = pathnames := by
  have hkept {pathname : String} {d : Document} (hd : document read region pathname = .ok d) :
      d.pathname = id pathname := by
    obtain ⟨_, -, hd⟩ := bind_eq_ok.mp hd
    obtain ⟨_, -, hd⟩ := bind_eq_ok.mp hd
    cases hd
    rfl
  rw [map_eq_of_mapM hkept h, List.map_id]

theorem Returns.buildCollection {c : CollectionConfig} {pathnames : List String} {collection : Collection}
    (h : Returns (buildCollection α read progress c pathnames) s collection t) :
    collection.name = c.name ∧ collection.pages.map PageRecord.pathname = pathnames := by
  simp only [Site.buildCollection, returns_bind, returns_log, returns_ofExcept, returns_modify] at h
  obtain ⟨_, _, rfl, documents, _, ⟨hdocuments, rfl⟩, _, _, rfl, h⟩ := h
  obtain ⟨layout, records, registry, names, hbuilt⟩ := Collection.Returns.built h
  rw [hbuilt.pathnames_eq, pathnames_of_documents hdocuments]
  exact ⟨hbuilt.name_eq, rfl⟩

def share (c : Collection) : String × List String :=
  (c.name, c.pages.map PageRecord.pathname)

theorem share_putCollection (c : Collection) (built : List Collection) :
    (putCollection c built).map share = Assoc.set c.name (share c).2 (built.map share) := by
  induction built with
  | nil => rfl
  | cons d built ih =>
    have hset : Assoc.set c.name (share c).2 ((d :: built).map share) =
        if c.name == d.name then (d.name, (share c).2) :: built.map share
        else share d :: Assoc.set c.name (share c).2 (built.map share) := rfl
    rw [putCollection, hset]
    by_cases hname : (c.name == d.name) = true
    · rw [if_pos hname, if_pos hname, List.map_cons, ← eq_of_beq hname]
      rfl
    · rw [if_neg hname, if_neg hname, List.map_cons, ih]

theorem Returns.buildCollections {groups : List (CollectionConfig × List String)} {built collections : List Collection}
    (h : Returns (buildCollections α read progress built groups) s collections t) :
    collections.map share =
      (groups.map fun g => (g.1.name, g.2)).foldl (fun acc e => Assoc.set e.1 e.2 acc) (built.map share) := by
  induction groups generalizing s t built with
  | nil =>
    rw [Site.buildCollections, returns_pure] at h
    rw [h.1]
    rfl
  | cons g groups ih =>
    obtain ⟨c, pathnames⟩ := g
    simp only [Site.buildCollections, returns_bind] at h
    obtain ⟨collection, _, hcollection, h⟩ := h
    obtain ⟨hname, hpages⟩ := Returns.buildCollection hcollection
    rw [ih h, share_putCollection, List.map_cons, List.foldl_cons, share, hname, hpages]

theorem Returns.build {files : List String} {site : Site}
    (h : Returns (build α config read progress files) s site t) :
    site.statics = files.filter (fun pathname => !isPage pathname) ∧
      site.collections.map (fun c => (c.name, c.pages.map PageRecord.pathname)) =
        (deal config.collections (files.filter isPage)).1.map fun g => (g.1.name, g.2) := by
  unfold Site.build at h
  dsimp only at h
  simp only [returns_bind, returns_pure] at h
  obtain ⟨collections, _, hcollections, _, _, -, _, _, -, rfl, -⟩ := h
  refine ⟨rfl, (Returns.buildCollections hcollections).trans (Assoc.ofList_of_nodup ?_)⟩
  have hnames := config.distinct
  rw [← deal_configs config.collections (files.filter isPage), List.map_map] at hnames
  rwa [Assoc.keys, List.map_map]

end Build

end Stencil.Site
