import Mathlib.Data.List.Permutation
import Stencil.Proofs.Site

namespace Stencil

namespace Site

def owner? (configs : List CollectionConfig) (pathname : String) : Option Nat :=
  configs.findIdx? fun c => c.takes pathname

def isWanted (configs : List CollectionConfig) (pathname : String) : Bool :=
  configs.any fun c => c.takes pathname

def ignoring (pathname : String) : LogLine :=
  ⟨.warning, "Ignoring " ++ pathname ++ ": no collection includes it"⟩

section Owners

variable {c : CollectionConfig} {configs : List CollectionConfig} {pathname : String}

theorem owner?_cons (c : CollectionConfig) (configs : List CollectionConfig) (pathname : String) :
    owner? (c :: configs) pathname =
      if c.takes pathname then some 0 else (owner? configs pathname).map (· + 1) :=
  List.findIdx?_cons

theorem owner?_isSome : (owner? configs pathname).isSome = isWanted configs pathname :=
  List.findIdx?_isSome

theorem owner?_eq_none_iff : owner? configs pathname = none ↔ isWanted configs pathname = false := by
  rw [← owner?_isSome, Option.isSome_eq_false_iff, Option.isNone_iff_eq_none]

theorem filter_owner_succ (pages : List String) (i : Nat) :
    pages.filter (fun p => owner? (c :: configs) p == some (i + 1)) =
      (pages.filter fun p => !c.takes p).filter fun p => owner? configs p == some i := by
  rw [List.filter_filter]
  refine List.filter_congr fun p _ => ?_
  rw [owner?_cons]
  cases c.takes p with
  | true => simp
  | false => cases owner? configs p <;> simp

theorem filter_owner_zero (pages : List String) :
    pages.filter (fun p => owner? (c :: configs) p == some 0) = pages.filter c.takes := by
  refine List.filter_congr fun p _ => ?_
  rw [owner?_cons]
  cases c.takes p with
  | true => simp
  | false => cases owner? configs p <;> simp

theorem deal_eq (configs : List CollectionConfig) (pages : List String) :
    deal configs pages =
      (configs.zipIdx.map fun (c, i) => (c, pages.filter fun p => owner? configs p == some i),
        pages.filter fun p => !isWanted configs p) := by
  induction configs generalizing pages with
  | nil => simp [deal, isWanted]
  | cons c configs ih =>
    have hleft : pages.filter (not ∘ c.takes) = pages.filter fun p => !c.takes p := rfl
    rw [deal]
    simp only [List.partition_eq_filter_filter, ih, hleft]
    congr 1
    · rw [List.zipIdx_cons, List.map_cons, filter_owner_zero, List.zipIdx_succ, List.map_map]
      refine congrArg _ (List.map_congr_left fun g _ => ?_)
      exact Prod.ext rfl (filter_owner_succ pages g.2).symm
    · rw [List.filter_filter]
      refine List.filter_congr fun p _ => ?_
      rw [isWanted, isWanted, List.any_cons, Bool.not_or, Bool.and_comm]

theorem count_dealt (pages : List String) (h : isWanted configs pathname = true) :
    ((deal configs pages).1.flatMap Prod.snd).count pathname = pages.count pathname := by
  have hperm := (deal_perm configs pages).count_eq pathname
  have hignored : ((deal configs pages).2).count pathname = 0 := by
    rw [deal_eq, List.count_eq_zero, List.mem_filter, h]
    simp
  rwa [List.count_append, hignored, Nat.add_zero] at hperm

end Owners

section Build

open Merge

variable {α : Type} [Grade α] {config : SiteConfig} {read : String → Except Failure String} {progress : Bool}
  {s t : MergeState} {files : List String} {site : Site}

theorem lines_addLine (s : MergeState) (level : Level) (message : String) :
    (s.addLine level message).trace.lines = s.trace.lines ++ [⟨level, message⟩] := by
  simp [MergeState.addLine, MergeState.addEvent, Trace.lines]

theorem Returns.ignore {ignored : List String} {x : PUnit}
    (h : Returns (forIn ignored PUnit.unit fun pathname _ => do
      Merge.log .warning ("Ignoring " ++ pathname ++ ": no collection includes it")
      pure (ForInStep.yield PUnit.unit)) s x t) :
    t.trace.lines = s.trace.lines ++ ignored.map ignoring := by
  induction ignored generalizing s with
  | nil =>
    rw [List.forIn_nil, returns_pure] at h
    simp [h.2]
  | cons pathname ignored ih =>
    simp only [List.forIn_cons, returns_bind, returns_log, returns_pure] at h
    obtain ⟨_, _, ⟨_, _, rfl, rfl, rfl⟩, h⟩ := h
    rw [ih h, lines_addLine, List.map_cons, List.append_assoc, ignoring, List.singleton_append]

theorem Returns.emit {e : Event} {x : Unit} (h : Returns (Merge.emit e) s x t)
    (he : ∀ l, e ≠ .line l) : t.trace.lines = s.trace.lines := by
  rw [Merge.emit, returns_modify] at h
  subst h
  cases e with
  | line l => exact absurd rfl (he l)
  | _ => simp [MergeState.addEvent, Trace.lines]

theorem Returns.snapshots {x : Unit} (h : Returns (Site.snapshots site) s x t) :
    t.trace.lines = s.trace.lines := by
  have hloop {cs : List Collection} {s t : MergeState} {x : PUnit}
      (h : Returns (forIn cs PUnit.unit fun c _ => do
        let contents ← Merge.ofExcept c.toJson
        Merge.emit (.snapshot ("collection-" ++ c.name ++ ".json") contents)
        pure (ForInStep.yield PUnit.unit)) s x t) : t.trace.lines = s.trace.lines := by
    induction cs generalizing s with
    | nil =>
      rw [List.forIn_nil, returns_pure] at h
      rw [h.2]
    | cons c cs ih =>
      simp only [List.forIn_cons, returns_bind, returns_ofExcept, returns_pure] at h
      obtain ⟨_, _, ⟨_, _, ⟨-, rfl⟩, _, _, hemit, rfl, rfl⟩, h⟩ := h
      rw [ih h, Returns.emit hemit (by simp)]
  simp only [Site.snapshots, returns_bind] at h
  obtain ⟨_, _, hchapter, _, _, hcollections, hstatics⟩ := h
  rw [Returns.emit hstatics (by simp), hloop hcollections, Returns.emit hchapter (by simp)]

theorem Returns.build_reports (h : Returns (Site.build α config read progress files) s site t) :
    ∃ before, t.trace.lines = before ++ ((deal config.collections (files.filter isPage)).2).map ignoring := by
  unfold Site.build at h
  dsimp only at h
  simp only [returns_bind, returns_pure] at h
  obtain ⟨_, u, -, _, _, hignored, _, _, hsnapshots, -, rfl⟩ := h
  exact ⟨u.trace.lines, by rw [Returns.snapshots hsnapshots, Returns.ignore hignored]⟩

/-- A build shares the files out: the pages of a collection are the pages that it is the first to want, the static files
are the files that are no pages, both in the order of the listing, and a page that no collection wants is in none
and has a line at the end of the log. -/
theorem files_shared_out (h : Returns (Site.build α config read progress files) s site t) :
    site.collections.map (fun c => (c.name, c.pages.map PageRecord.pathname)) =
        config.collections.zipIdx.map (fun (c, i) =>
          (c.name, files.filter fun f => isPage f && owner? config.collections f == some i)) ∧
      site.statics = files.filter (fun f => !isPage f) ∧
      (∀ f, isPage f = true → isWanted config.collections f = true →
        (site.collections.flatMap fun c => c.pages.map PageRecord.pathname).count f = files.count f) ∧
      (∀ f, isWanted config.collections f = false → ∀ c ∈ site.collections, f ∉ c.pages.map PageRecord.pathname) ∧
      ∃ before, t.trace.lines = before ++
        (files.filter fun f => isPage f && !isWanted config.collections f).map ignoring := by
  obtain ⟨hstatics, hcollections⟩ := Returns.build h
  obtain ⟨before, hlines⟩ := Returns.build_reports h
  have hgroups : site.collections.map (fun c => c.pages.map PageRecord.pathname) =
      (deal config.collections (files.filter isPage)).1.map Prod.snd := by
    have hpaths := congrArg (List.map Prod.snd) hcollections
    rwa [List.map_map, List.map_map] at hpaths
  refine ⟨?_, hstatics, fun f hpage hwanted => ?_, fun f hwanted c hc hf => ?_, before, ?_⟩
  · rw [hcollections, deal_eq, List.map_map]
    refine List.map_congr_left fun g _ => Prod.ext rfl ?_
    simp only [Function.comp, List.filter_filter, Bool.and_comm]
  · rw [List.flatMap, hgroups, ← List.flatMap, count_dealt _ hwanted, List.count_filter hpage]
  · have hmem := List.mem_map_of_mem (f := fun c : Collection => c.pages.map PageRecord.pathname) hc
    rw [hgroups, deal_eq, List.map_map] at hmem
    obtain ⟨g, -, hg⟩ := List.mem_map.mp hmem
    rw [← hg] at hf
    have howner := (List.mem_filter.mp hf).2
    rw [owner?_eq_none_iff.mpr hwanted] at howner
    cases howner
  · rw [hlines, deal_eq, List.filter_filter]
    simp only [Bool.and_comm]

def overlapping : SiteConfig × List String :=
  (⟨[⟨"posts", ["posts/*"], none⟩, ⟨"pages", ["*.html"], none⟩], by decide⟩,
    ["about.html", "draft.htm", "index.html", "logo.png", "posts/a.html", "posts/b.html"])

theorem pages_overlapping : overlapping.2.filter isPage =
    ["about.html", "draft.htm", "index.html", "posts/a.html", "posts/b.html"] := by
  decide +kernel

theorem deal_overlapping : deal overlapping.1.collections (overlapping.2.filter isPage) =
    ([(⟨"posts", ["posts/*"], none⟩, ["posts/a.html", "posts/b.html"]),
      (⟨"pages", ["*.html"], none⟩, ["about.html", "index.html"])], ["draft.htm"]) := by
  rw [pages_overlapping]
  cbv

theorem files_shared_out_overlapping : ∃ site t,
    Returns (Site.build Rat overlapping.1 (fun f => .ok ("<p>" ++ f ++ "</p>")) false overlapping.2) {} site t ∧
      site.collections.map (fun c => (c.name, c.pages.map PageRecord.pathname)) =
        [("posts", ["posts/a.html", "posts/b.html"]), ("pages", ["about.html", "index.html"])] ∧
      site.statics = ["logo.png"] ∧
      ∃ before, t.trace.lines = before ++ [ignoring "draft.htm"] := by
  obtain ⟨site, t, hbuild, -⟩ := exists_returns (s := {}) (f := fun _ => ()) (y := ())
    (m := Site.build Rat overlapping.1 (fun f => .ok ("<p>" ++ f ++ "</p>")) false overlapping.2) (by
      unfold Site.build
      rw [deal_overlapping]
      decide +kernel)
  obtain ⟨hcollections, hstatics, -, -, before, hlines⟩ := files_shared_out hbuild
  simp only [← List.filter_filter, Bool.and_comm (isPage _), pages_overlapping] at hcollections hlines
  exact ⟨site, t, hbuild, hcollections.trans (by cbv), hstatics.trans (by decide +kernel), before,
    hlines.trans (congrArg (before ++ ·) (by cbv))⟩

end Build

end Site

end Stencil
