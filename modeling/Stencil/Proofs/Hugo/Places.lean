import Mathlib.Tactic.MkIffOfInductiveProp
import Stencil.Proofs.Failure
import Stencil.Proofs.Hugo.Paths
import Stencil.Proofs.Site

namespace Stencil.Hugo

open Merge Pathname

section Distinct

def shares (config : SiteConfig) (t : FileTree) : List (String × List String) :=
  (Site.deal config.collections ((Site.listing t).filter Site.isPage)).1.map fun g => (g.1.name, g.2)

@[mk_iff]
structure Apart (shares : List (String × List String)) : Prop where
  layouts : shares.Pairwise fun c d => (Pathname.ofText c.1).parts ≠ (Pathname.ofText d.1).parts
  renamed : ∀ c ∈ shares, ∀ p ∈ c.2, ∀ q ∈ c.2, ¬ Displaces (Pathname.ofText p) (Pathname.ofText q)
  contents : shares.Pairwise fun c d => ∀ p ∈ c.2, ∀ q ∈ d.2, pagePath c.1 p ≠ pagePath d.1 q

instance (shares : List (String × List String)) : Decidable (Apart shares) :=
  decidable_of_iff' _ (apart_iff shares)

example : ¬ Apart [("pages", ["posts/a.html"]), ("posts", ["a.html"])] := by
  decide +kernel

def sharePaths (c : String × List String) : List (List String) :=
  ("layouts" :: (Pathname.ofText c.1).parts ++ ["list.html"]) :: c.2.map fun p => "content" :: pagePath c.1 p

theorem nodup_pagePath_iff {name : String} {pathnames : List String}
    (h : (pathnames.map fun p => (Pathname.ofText p).parts).Nodup) :
    (pathnames.map fun p => "content" :: pagePath name p).Nodup ↔
      ∀ p ∈ pathnames, ∀ q ∈ pathnames, ¬ Displaces (Pathname.ofText p) (Pathname.ofText q) := by
  rw [List.nodup_map_iff_inj_on h.of_map]
  have hsame (p q : String) : "content" :: pagePath name p = "content" :: pagePath name q ↔
      (Pathname.ofText p).parts = (Pathname.ofText q).parts ∨ Displaces (Pathname.ofText p) (Pathname.ofText q) ∨
        Displaces (Pathname.ofText q) (Pathname.ofText p) := by
    rw [← parts_indexName_eq_iff, List.cons_inj_right, pagePath, pagePath, List.append_cancel_left_eq]
  constructor
  · intro hinj p hp q hq hdisplaces
    obtain rfl := hinj p hp q hq ((hsame p q).mpr (.inr (.inl hdisplaces)))
    exact hdisplaces.not_index hdisplaces.1
  · intro hnone p hp q hq heq
    rcases (hsame p q).mp heq with hparts | hdisplaces | hdisplaces
    · exact List.inj_on_of_nodup_map h hp hq hparts
    · exact absurd hdisplaces (hnone p hp q hq)
    · exact absurd hdisplaces (hnone q hq p hp)

theorem nodup_sharePaths_iff {shares : List (String × List String)}
    (h : ∀ c ∈ shares, (c.2.map fun p => (Pathname.ofText p).parts).Nodup) :
    (shares.flatMap sharePaths).Nodup ↔ Apart shares := by
  have hself (c : String × List String) (hc : c ∈ shares) : (sharePaths c).Nodup ↔
      ∀ p ∈ c.2, ∀ q ∈ c.2, ¬ Displaces (Pathname.ofText p) (Pathname.ofText q) := by
    rw [sharePaths, List.nodup_cons, nodup_pagePath_iff (h c hc)]
    exact and_iff_right (by simp)
  -- layouts and pages lie in different folders
  have hcross (c d : String × List String) : List.Disjoint (sharePaths c) (sharePaths d) ↔
      (Pathname.ofText c.1).parts ≠ (Pathname.ofText d.1).parts ∧
        ∀ p ∈ c.2, ∀ q ∈ d.2, pagePath c.1 p ≠ pagePath d.1 q := by
    constructor
    · intro h
      refine ⟨fun heq => ?_, fun p hp q hq heq => ?_⟩
      · exact h List.mem_cons_self (by rw [heq]; exact List.mem_cons_self)
      · have hmem : "content" :: pagePath c.1 p ∈ sharePaths c :=
          List.mem_cons_of_mem _ (List.mem_map_of_mem hp)
        exact h hmem (by rw [heq]; exact List.mem_cons_of_mem _ (List.mem_map_of_mem hq))
    · rintro ⟨hlayouts, hpages⟩ path hc hd
      simp only [sharePaths, List.mem_cons, List.mem_map] at hc hd
      rcases hc with rfl | ⟨p, hp, rfl⟩
      · rcases hd with heq | ⟨q, -, heq⟩
        · simp only [List.cons_append, List.cons.injEq, true_and, List.append_cancel_right_eq] at heq
          exact hlayouts heq
        · simp at heq
      · rcases hd with heq | ⟨q, hq, heq⟩
        · simp at heq
        · exact hpages p hp q hq (List.cons.inj heq).2.symm
  have hpairs : shares.Pairwise (Function.onFun List.Disjoint sharePaths) ↔
      shares.Pairwise (fun c d => (Pathname.ofText c.1).parts ≠ (Pathname.ofText d.1).parts) ∧
        shares.Pairwise fun c d => ∀ p ∈ c.2, ∀ q ∈ d.2, pagePath c.1 p ≠ pagePath d.1 q := by
    rw [← List.pairwise_and_iff]
    exact List.Pairwise.iff hcross
  rw [List.nodup_flatMap, forall₂_congr hself, hpairs, apart_iff, and_left_comm]

theorem paths_copies (statics : List String) :
    (statics.map Output.copy).map Output.path = statics.map fun p => "static" :: (Pathname.ofText p).parts := by
  rw [List.map_map]
  exact List.map_congr_left fun p _ => path_copy p

theorem collectionFiles_pathnames {c : Collection} {files : List TextFile} (h : collectionFiles c = .ok files) :
    files.map TextFile.pathname =
      layoutPath c.name :: (c.pages.map PageRecord.pathname).map (contentPath c.name) := by
  obtain ⟨layout, hlayout, h⟩ := bind_eq_ok.mp h
  obtain ⟨pages, hpages, h⟩ := bind_eq_ok.mp h
  cases h
  obtain ⟨_, -, hlayout⟩ := bind_eq_ok.mp hlayout
  cases hlayout
  have hkept {p : PageRecord} {f : TextFile} (hf : contentFile c.name p.pathname p.fields p.contents = .ok f) :
      f.pathname = contentPath c.name p.pathname := by
    obtain ⟨_, -, hf⟩ := bind_eq_ok.mp hf
    cases hf
    rfl
  rw [List.map_cons, map_eq_of_mapM hkept hpages, List.map_map]
  rfl

theorem paths_outputs {s : Site} {os : List Output} (h : outputs s = .ok os)
    (hnames : ∀ c ∈ s.collections, ∀ p ∈ c.pages,
      ∀ n ∈ (Pathname.ofText p.pathname).parts, FileTree.IsName n) :
    os.map Output.path = s.statics.map (fun p => "static" :: (Pathname.ofText p).parts) ++
      ((s.collections.map fun c => (c.name, c.pages.map PageRecord.pathname)).flatMap sharePaths ++
        [["hugo.yaml"]]) := by
  obtain ⟨texts, htexts, h⟩ := bind_eq_ok.mp h
  cases h
  obtain ⟨files, hfiles, htexts⟩ := bind_eq_ok.mp htexts
  cases htexts
  have hpathnames : files.map (fun fs => fs.map TextFile.pathname) =
      s.collections.map fun c => layoutPath c.name :: (c.pages.map PageRecord.pathname).map (contentPath c.name) :=
    map_eq_of_mapM collectionFiles_pathnames hfiles
  have hshares : files.flatten.map (fun f => (Pathname.ofText f.pathname).parts) =
      (s.collections.map fun c => (c.name, c.pages.map PageRecord.pathname)).flatMap sharePaths := by
    have hparts := congrArg (fun paths => (paths.map fun ps => ps.map fun p => (Pathname.ofText p).parts).flatten)
      hpathnames
    simp only [List.map_map, Function.comp_def] at hparts
    rw [List.map_flatten, hparts, List.flatMap_map, List.flatMap_def]
    congr 1
    apply List.map_congr_left
    intro c hc
    rw [sharePaths, List.map_cons, parts_layoutPath, List.map_map, List.map_map]
    congr 1
    exact List.map_congr_left fun p hp => parts_contentPath c.name (hnames c hc p hp)
  have hsettings : (Pathname.ofText settings.pathname).parts = ["hugo.yaml"] :=
    parts_of_isPart (by simp [settings, IsPart])
  rw [List.map_append, paths_copies, List.map_map, List.map_append, List.map_singleton]
  simp only [Function.comp_def, Output.path, Output.target]
  rw [hshares, hsettings]

theorem nodup_paths_iff {statics : List String} {shares : List (String × List String)}
    (hstatics : (statics.map fun p => (Pathname.ofText p).parts).Nodup)
    (hshares : ∀ c ∈ shares, (c.2.map fun p => (Pathname.ofText p).parts).Nodup) :
    (statics.map (fun p => "static" :: (Pathname.ofText p).parts) ++
      (shares.flatMap sharePaths ++ [["hugo.yaml"]])).Nodup ↔ Apart shares := by
  have hcopies : (statics.map fun p => "static" :: (Pathname.ofText p).parts).Nodup := by
    have hmap := hstatics.map (List.cons_injective (a := "static"))
    rwa [List.map_map] at hmap
  have hheads {path : List String} (hpath : path ∈ shares.flatMap sharePaths) :
      path.head? = some "layouts" ∨ path.head? = some "content" := by
    obtain ⟨c, -, hpath⟩ := List.mem_flatMap.mp hpath
    rcases List.mem_cons.mp hpath with rfl | hpath
    · exact .inl rfl
    · obtain ⟨p, -, rfl⟩ := List.mem_map.mp hpath
      exact .inr rfl
  rw [List.nodup_append', List.nodup_append', nodup_sharePaths_iff hshares]
  constructor
  · rintro ⟨-, ⟨hapart, -, -⟩, -⟩
    exact hapart
  · intro hapart
    refine ⟨hcopies, ⟨hapart, List.nodup_singleton _, ?_⟩, ?_⟩
    · intro path hpath hsettings
      rw [List.mem_singleton.mp hsettings] at hpath
      rcases hheads hpath with h | h <;> simp at h
    · intro path hpath hrest
      obtain ⟨p, -, rfl⟩ := List.mem_map.mp hpath
      rcases List.mem_append.mp hrest with hrest | hrest
      · rcases hheads hrest with h | h <;> simp at h
      · simp at hrest

end Distinct

section Written

variable {source place : List String} {t u : FileTree} {os : List Output}

theorem exists_write {o : Output} (h : writeOutputs source place t (o :: os) = .ok u) :
    ∃ bytes v, (∀ f, o = .text f → bytes = f.contents.toUTF8) ∧ t.write place o.path bytes = some v ∧
      writeOutputs source place v os = .ok u := by
  cases o with
  | text f =>
    unfold writeOutputs at h
    obtain ⟨bytes, hbytes, h⟩ := bind_eq_ok.mp h
    dsimp only at h
    split at h
    · next v hv =>
      refine ⟨bytes, v, ?_, hv, h⟩
      rintro _ ⟨rfl⟩
      exact (Except.ok.inj hbytes).symm
    · cases h
  | copy pathname =>
    unfold writeOutputs at h
    dsimp only at h
    split at h
    · obtain ⟨bytes, -, h⟩ := bind_eq_ok.mp h
      split at h
      · next v hv => exact ⟨bytes, v, nofun, hv, h⟩
      · cases h
    · cases h

theorem bytes?_writeOutputs (hup : ∀ o ∈ os, ".." ∉ o.path) (h : writeOutputs source place t os = .ok u)
    {path : List String} (hpath : path ∉ os.map Output.path) :
    u.bytes? (place ++ path) = t.bytes? (place ++ path) := by
  induction os generalizing t with
  | nil =>
    cases h
    rfl
  | cons o os ih =>
    rw [List.map_cons, List.mem_cons, not_or] at hpath
    obtain ⟨hfirst, hothers⟩ := List.forall_mem_cons.mp hup
    obtain ⟨bytes, v, -, hwrite, hrest⟩ := exists_write h
    rw [ih hothers hrest hpath.2, FileTree.bytes?_write hfirst hwrite, if_neg]
    exact mt List.append_cancel_left hpath.1

theorem bytes?_of_mem (hnodup : (os.map Output.path).Nodup) (hup : ∀ o ∈ os, ".." ∉ o.path)
    (h : writeOutputs source place t os = .ok u) {f : TextFile} (hf : Output.text f ∈ os) :
    u.bytes? (place ++ (Output.text f).path) = some f.contents.toUTF8 := by
  induction os generalizing t with
  | nil => exact absurd hf List.not_mem_nil
  | cons o os ih =>
    obtain ⟨hfresh, hnodup⟩ := List.nodup_cons.mp hnodup
    obtain ⟨hfirst, hothers⟩ := List.forall_mem_cons.mp hup
    obtain ⟨bytes, v, hbytes, hwrite, hrest⟩ := exists_write h
    rcases List.mem_cons.mp hf with rfl | hf
    · rw [bytes?_writeOutputs hothers hrest hfresh, FileTree.bytes?_write hfirst hwrite, if_pos rfl,
        hbytes f rfl]
    · exact ih hnodup hothers hrest hf

end Written

section Site

variable {α : Type} [Grade α] {config : SiteConfig} {read : String → Except Failure String} {progress : Bool}
  {t : FileTree} {s u : MergeState} {site : Site} {os : List Output}

theorem mem_shares (ht : t.Proper) {c : String × List String} (hc : c ∈ shares config t) :
    (∃ d ∈ config.collections, d.name = c.1) ∧ (c.2.map fun p => (Pathname.ofText p).parts).Nodup ∧
      ∀ p ∈ c.2, ∀ n ∈ (Pathname.ofText p).parts, FileTree.IsName n := by
  obtain ⟨g, hg, rfl⟩ := List.mem_map.mp hc
  obtain ⟨hconfig, hnodup, hmem⟩ := Site.spec_of_mem_deal ((Site.nodup_listing ht).filter _) hg
  have hlisted : ∀ p ∈ g.2, p ∈ Site.listing t := fun p hp => List.mem_of_mem_filter (hmem p hp)
  refine ⟨⟨g.1, hconfig, rfl⟩, Site.nodup_parts ht hnodup hlisted, fun p hp => ?_⟩
  exact (Site.parts_of_mem_listing ht (hlisted p hp)).2

theorem up_notMem_sharePaths {c : String × List String} (hname : ".." ∉ (Pathname.ofText c.1).parts)
    (hpages : ∀ p ∈ c.2, ∀ n ∈ (Pathname.ofText p).parts, FileTree.IsName n) :
    ∀ path ∈ sharePaths c, ".." ∉ path := by
  intro path hpath hup
  rcases List.mem_cons.mp hpath with rfl | hpath
  · have hmem : ".." ∈ (Pathname.ofText c.1).parts := by simpa using hup
    exact hname hmem
  · obtain ⟨p, hp, rfl⟩ := List.mem_map.mp hpath
    have hmem : ".." ∈ contentFolder c.1 ∨ ".." ∈ (indexName (Pathname.ofText p)).parts := by
      simpa [pagePath] using hup
    rcases hmem with hmem | hmem
    · unfold contentFolder at hmem
      split at hmem
      · exact List.not_mem_nil hmem
      · exact hname hmem
    · exact (isName_indexName (hpages p hp) ".." hmem).2 rfl

theorem paths_of_build (ht : t.Proper)
    (hbuild : Returns (Site.build α config read progress (Site.listing t)) s site u)
    (hos : outputs site = .ok os) :
    os.map Output.path = site.statics.map (fun p => "static" :: (Pathname.ofText p).parts) ++
        ((shares config t).flatMap sharePaths ++ [["hugo.yaml"]]) ∧
      site.statics.Nodup ∧ ∀ p ∈ site.statics, p ∈ Site.listing t := by
  obtain ⟨hstatics, hshares⟩ := Site.Returns.build hbuild
  refine ⟨?_, ?_, ?_⟩
  · rw [shares, ← hshares]
    apply paths_outputs hos
    intro c hc p hp
    have hmem : (c.name, c.pages.map PageRecord.pathname) ∈ shares config t := by
      rw [shares, ← hshares]
      exact List.mem_map_of_mem hc
    exact (mem_shares ht hmem).2.2 p.pathname (List.mem_map_of_mem hp)
  · rw [hstatics]
    exact (Site.nodup_listing ht).filter _
  · rw [hstatics]
    exact fun p => List.mem_of_mem_filter

theorem up_notMem_of_build (ht : t.Proper)
    (hbuild : Returns (Site.build α config read progress (Site.listing t)) s site u)
    (hos : outputs site = .ok os) (hnames : ∀ c ∈ config.collections, ".." ∉ (Pathname.ofText c.name).parts) :
    ∀ o ∈ os, ".." ∉ o.path := by
  obtain ⟨hpaths, -, hlisted⟩ := paths_of_build ht hbuild hos
  intro o ho hup
  have hpath : o.path ∈ os.map Output.path := List.mem_map_of_mem ho
  rw [hpaths, List.mem_append, List.mem_append] at hpath
  rcases hpath with hpath | hpath | hpath
  · obtain ⟨p, hp, hpath⟩ := List.mem_map.mp hpath
    have hmem : ".." ∈ (Pathname.ofText p).parts := by simpa [← hpath] using hup
    exact ((Site.parts_of_mem_listing ht (hlisted p hp)).2 ".." hmem).2 rfl
  · obtain ⟨c, hc, hpath⟩ := List.mem_flatMap.mp hpath
    obtain ⟨⟨d, hd, hname⟩, -, hpages⟩ := mem_shares ht hc
    exact up_notMem_sharePaths (hname ▸ hnames d hd) hpages o.path hpath hup
  · rw [List.mem_singleton.mp hpath] at hup
    exact absurd hup (by decide)

/-- The files that are written for a site have places of their own exactly if what the collections take is apart.
Then every layout, every page and the settings are there in the end, unless the name of a collection leads up. -/
theorem outputs_apart_iff (ht : t.Proper)
    (hbuild : Returns (Site.build α config read progress (Site.listing t)) s site u)
    (hos : outputs site = .ok os) :
    ((os.map Output.path).Nodup ↔ Apart (shares config t)) ∧
      (Apart (shares config t) → (∀ c ∈ config.collections, ".." ∉ (Pathname.ofText c.name).parts) →
        ∀ {source place : List String} {before after : FileTree},
          writeOutputs source place before os = .ok after →
            ∀ f, Output.text f ∈ os → after.bytes? (place ++ (Output.text f).path) = some f.contents.toUTF8) := by
  obtain ⟨hpaths, hnodup, hlisted⟩ := paths_of_build ht hbuild hos
  have hiff : (os.map Output.path).Nodup ↔ Apart (shares config t) := by
    rw [hpaths]
    exact nodup_paths_iff (Site.nodup_parts ht hnodup hlisted) fun c hc => (mem_shares ht hc).2.1
  refine ⟨hiff, fun hapart hnames {source place before after} hwritten f hf => ?_⟩
  exact bytes?_of_mem (hiff.mpr hapart) (up_notMem_of_build ht hbuild hos hnames) hwritten hf

def exportPlainly (t : FileTree) : Merge (List Output × FileTree) := do
  let site ← Site.build Rat .standard (Site.reader t []) false (Site.listing t)
  let os ← Merge.ofExcept (outputs site)
  let after ← Merge.ofExcept (writeOutputs [] ["out"] t os)
  return (os, after)

theorem Returns.exportPlainly {x : List Output × FileTree} (h : Returns (exportPlainly t) s x u) :
    ∃ site v, Returns (Site.build Rat .standard (Site.reader t []) false (Site.listing t)) s site v ∧
      outputs site = .ok x.1 ∧ writeOutputs [] ["out"] t x.1 = .ok x.2 := by
  simp only [Hugo.exportPlainly, returns_bind, returns_ofExcept, returns_pure] at h
  obtain ⟨site, _, hsite, os, _, ⟨hos, rfl⟩, after, _, ⟨hafter, rfl⟩, rfl, -⟩ := h
  exact ⟨site, _, hsite, hos, hafter⟩

def plain : FileTree :=
  .folder [("about.html", .file "<p>one</p>".toUTF8), ("css", .folder [("site.css", .file "p, b".toUTF8)]),
    ("index.html", .file "<p>two</p>".toUTF8)]

theorem listing_plain : Site.listing plain = ["about.html", "css/site.css", "index.html"] :=
  Site.listing_of_sorted [["about.html"], ["css", "site.css"], ["index.html"]] (by decide +kernel)
    (by decide +kernel)

theorem deal_plain : Site.deal SiteConfig.standard.collections ((Site.listing plain).filter Site.isPage) =
    ([(⟨"pages", ["*.html"], none⟩, ["about.html", "index.html"])], []) := by
  have hpages : ["about.html", "css/site.css", "index.html"].filter Site.isPage = ["about.html", "index.html"] := by
    decide +kernel
  have habout : Glob.matchesText "*.html" "about.html" = true := by
    simp [Glob.matchesText, Glob.parts, Glob.accepts, Glob.Part.accepts]
  have hindex : Glob.matchesText "*.html" "index.html" = true := by
    simp [Glob.matchesText, Glob.parts, Glob.accepts, Glob.Part.accepts]
  rw [listing_plain, hpages]
  exact Site.deal_standard (by simp [habout, hindex])

theorem outputs_apart_plain : plain.Proper ∧ Apart (shares .standard plain) ∧ ∃ site u os after,
    Returns (Site.build Rat .standard (Site.reader plain []) false (Site.listing plain)) {} site u ∧
      outputs site = .ok os ∧ writeOutputs [] ["out"] plain os = .ok after ∧ (os.map Output.path).Nodup ∧
      ∀ f, Output.text f ∈ os → after.bytes? (["out"] ++ (Output.text f).path) = some f.contents.toUTF8 := by
  have hproper : plain.Proper := by
    simp [plain, FileTree.Proper, FileTree.ProperEntries, FileTree.IsName, IsPart]
  have hapart : Apart (shares .standard plain) := by
    rw [shares, deal_plain]
    decide +kernel
  obtain ⟨⟨os, after⟩, _, hexport, -⟩ := exists_returns (s := {}) (f := fun _ => ()) (y := ())
    (m := exportPlainly plain) (by
      unfold exportPlainly Site.build
      rw [deal_plain, listing_plain]
      decide +kernel)
  obtain ⟨site, u, hbuild, hos, hafter⟩ := Returns.exportPlainly hexport
  have hname : (Pathname.ofText "pages").parts = ["pages"] := parts_of_isPart (by simp [IsPart])
  have hnames : ∀ c ∈ SiteConfig.standard.collections, ".." ∉ (Pathname.ofText c.name).parts := by
    simp [SiteConfig.standard, hname]
  obtain ⟨hiff, hkept⟩ := outputs_apart_iff hproper hbuild hos
  exact ⟨hproper, hapart, site, u, os, after, hbuild, hos, hafter, hiff.mpr hapart,
    hkept hapart hnames hafter⟩

def twins : FileTree :=
  .folder [("_index.html", .file "<p>one</p>".toUTF8), ("index.html", .file "<p>two</p>".toUTF8)]

theorem listing_twins : Site.listing twins = ["_index.html", "index.html"] :=
  Site.listing_of_sorted [["_index.html"], ["index.html"]] (by decide +kernel) (by decide +kernel)

theorem deal_twins : Site.deal SiteConfig.standard.collections ((Site.listing twins).filter Site.isPage) =
    ([(⟨"pages", ["*.html"], none⟩, ["_index.html", "index.html"])], []) := by
  have hpages : ["_index.html", "index.html"].filter Site.isPage = ["_index.html", "index.html"] := by
    decide +kernel
  have hunder : Glob.matchesText "*.html" "_index.html" = true := by
    simp [Glob.matchesText, Glob.parts, Glob.accepts, Glob.Part.accepts]
  have hindex : Glob.matchesText "*.html" "index.html" = true := by
    simp [Glob.matchesText, Glob.parts, Glob.accepts, Glob.Part.accepts]
  rw [listing_twins, hpages]
  exact Site.deal_standard (by simp [hunder, hindex])

theorem outputs_twins : twins.Proper ∧ SiteConfig.read SiteConfig.standard.toJson = .ok .standard ∧
    ∃ site u os after,
      Returns (Site.build Rat .standard (Site.reader twins []) false (Site.listing twins)) {} site u ∧
        outputs site = .ok os ∧ writeOutputs [] ["out"] twins os = .ok after ∧ ¬ (os.map Output.path).Nodup ∧
        os.map Output.path = [["layouts", "pages", "list.html"], ["content", "_index.html"],
          ["content", "_index.html"], ["hugo.yaml"]] ∧
        after.files.map Prod.fst = [["_index.html"], ["index.html"], ["out", "layouts", "pages", "list.html"],
          ["out", "content", "_index.html"], ["out", "hugo.yaml"]] := by
  have hproper : twins.Proper := by
    simp [twins, FileTree.Proper, FileTree.ProperEntries, FileTree.IsName, IsPart]
  obtain ⟨⟨os, after⟩, _, hexport, hplaces⟩ := exists_returns (s := {}) (m := exportPlainly twins)
    (f := fun x => (x.1.map Output.path, x.2.files.map Prod.fst))
    (y := ([["layouts", "pages", "list.html"], ["content", "_index.html"], ["content", "_index.html"],
      ["hugo.yaml"]], [["_index.html"], ["index.html"], ["out", "layouts", "pages", "list.html"],
      ["out", "content", "_index.html"], ["out", "hugo.yaml"]])) (by
      unfold exportPlainly Site.build
      rw [deal_twins, listing_twins]
      decide +kernel)
  obtain ⟨site, u, hbuild, hos, hafter⟩ := Returns.exportPlainly hexport
  obtain ⟨hpaths, hfiles⟩ := Prod.mk.inj hplaces
  refine ⟨hproper, rfl, site, u, os, after, hbuild, hos, hafter, ?_, hpaths, hfiles⟩
  rw [hpaths]
  decide

end Site

end Stencil.Hugo
