import Stencil.Journal
import Stencil.Proofs.FileTree
import Stencil.Proofs.Key

/-!
A journal loses nothing. Every round of every chapter has a folder of its own, so a file of a round that is over is
never written again; and the files of lines, chapter after chapter and round after round, hold together with the
lines still held back just what was heard.
-/

namespace Stencil

namespace Pathname

theorem join_of_not_mem {p : Pathname} {s : String} (h : '/' ∉ s.toList) :
    p.join s = ⟨p.root, p.parts ++ (ofText s).parts⟩ := by
  have hroot : (ofText s).root = "" := by
    have hnone : s.toList.takeWhile (· == '/') = [] := by
      rw [List.takeWhile_eq_nil_iff]
      intro hpos hslash
      exact h (eq_of_beq hslash ▸ List.getElem_mem hpos)
    simp only [ofText, rootOf, hnone, List.length_nil]
  simp only [join, hroot]
  rfl

theorem eq_of_parts {s t : String} (hs : '/' ∉ s.toList) (ht : IsPart t) (h : (ofText s).parts = (ofText t).parts) :
    s = t := by
  rw [parts_of_isPart ht] at h
  by_cases hpart : IsPart s
  · rw [parts_of_isPart hpart] at h
    exact List.singleton_inj.mp h
  · have hdots : s = "" ∨ s = "." := by
      by_contra hno
      rw [not_or] at hno
      exact hpart ⟨hno.1, hno.2, hs⟩
    rcases hdots with rfl | rfl
    · rw [parts_empty] at h
      cases h
    · rw [parts_dot] at h
      cases h

theorem isPart_toString (n : Nat) : IsPart (toString n) := by
  have hdigit {c : Char} (hc : c ∈ (toString n).toList) : c.isDigit = true := Key.isDigit_of_mem_toString hc
  refine ⟨?_, ?_, fun h => absurd (hdigit h) (by decide)⟩
  · simp [toString, Nat.repr]
  · intro h
    have hmem : '.' ∈ (toString n).toList := by
      rw [h]
      decide
    exact absurd (hdigit hmem) (by decide)

end Pathname

namespace Journal

open Pathname

def place (chapter : String) (round : Nat) (file : String) : Pathname :=
  [folder, chapter, toString round, file].foldl Pathname.join {}

section Place

variable {chapter chapter' file file' : String} {round round' : Nat}

theorem place_eq (hchapter : IsPart chapter) (hfile : '/' ∉ file.toList) :
    place chapter round file = ⟨"", [folder, chapter, toString round] ++ (ofText file).parts⟩ := by
  have hfolder : IsPart folder := by decide
  have hround := isPart_toString round
  simp only [place, List.foldl_cons, List.foldl_nil, join_of_not_mem hfolder.2.2, join_of_not_mem hchapter.2.2,
    join_of_not_mem hround.2.2, join_of_not_mem hfile, parts_of_isPart hfolder, parts_of_isPart hchapter,
    parts_of_isPart hround]
  rfl

theorem place_inj (hchapter : IsPart chapter) (hfile : '/' ∉ file.toList) (hchapter' : IsPart chapter')
    (hfile' : '/' ∉ file'.toList) (h : place chapter round file = place chapter' round' file') :
    chapter = chapter' ∧ round = round' ∧ (ofText file).parts = (ofText file').parts := by
  rw [place_eq hchapter hfile, place_eq hchapter' hfile'] at h
  have hparts := congrArg Pathname.parts h
  simp only [List.cons_append, List.nil_append, List.cons.injEq, true_and] at hparts
  exact ⟨hparts.1, Key.toString_inj hparts.2.1, hparts.2.2⟩

theorem isPart_linesFile : IsPart linesFile := by
  decide

theorem place_ne_lines (hchapter : IsPart chapter) (hchapter' : IsPart chapter') (hfile : '/' ∉ file.toList)
    (hne : file ≠ linesFile) : place chapter' round' linesFile ≠ place chapter round file := by
  intro h
  obtain ⟨-, -, hparts⟩ := place_inj hchapter' isPart_linesFile.2.2 hchapter hfile h
  exact hne (eq_of_parts hfile isPart_linesFile hparts.symm)

end Place

def pageOf (lines : List String) : String :=
  String.join (lines.map (· ++ "\n"))

inductive Step
  | listen
  | close
  | hear (l : LogLine)
  | beginChapter (name : String)
  | endRound
  | write (file contents : String)
  | writeJson (file : String) (contents : Json)

namespace Step

def apply (j : Journal) : Step → Journal
  | listen => j.listen
  | close => j.close
  | hear l => j.hear l
  | beginChapter name => j.beginChapter name
  | endRound => j.endRound
  | write file contents => j.write file contents
  | writeJson file contents => j.writeJson file contents

def chapter? : Step → Option String
  | beginChapter name => some name
  | _ => none

def file? : Step → Option String
  | write file _ => some file
  | writeJson file _ => some file
  | _ => none

def writes (j : Journal) : Step → Option (Pathname × String)
  | write file contents => some (place j.chapter j.round file, contents)
  | writeJson file contents => some (place j.chapter j.round file, contents.text ++ "\n")
  | close | beginChapter _ | endRound =>
    if j.lines = [] then none else some (place j.chapter j.round linesFile, pageOf j.lines)
  | listen | hear _ => none

def endsRound : Step → Bool
  | close | beginChapter _ | endRound => true
  | _ => false

def listens (before : Bool) : Step → Bool
  | listen => true
  | close => false
  | _ => before

def lines (listening : Bool) : Step → List String
  | hear l => if listening then [l.text] else []
  | _ => []

end Step

def run (steps : List Step) : Journal :=
  steps.foldl Step.apply {}

def writings (j : Journal) : List Step → List (Pathname × String)
  | [] => []
  | step :: steps => (step.writes j).toList ++ writings (step.apply j) steps

def chapters (steps : List Step) : List String :=
  "init" :: steps.filterMap Step.chapter?

def heard (listening : Bool) : List Step → List String
  | [] => []
  | step :: steps => step.lines listening ++ heard (step.listens listening) steps

structure Tidy (steps : List Step) : Prop where
  names : ∀ name ∈ steps.filterMap Step.chapter?, FileTree.IsName name ∧ name ≠ "init"
  distinct : (steps.filterMap Step.chapter?).Nodup
  files : ∀ file ∈ steps.filterMap Step.file?, '/' ∉ file.toList ∧ file ≠ linesFile

def lineFiles (files : List (Pathname × String)) (chapters : List String) (rounds : Nat) : List String :=
  chapters.flatMap fun c => (List.range rounds).filterMap fun i => files.lookup (place c (i + 1) linesFile)

section LineFiles

variable {files files' : List (Pathname × String)} {cs : List String} {n : Nat}

theorem lineFiles_append (files : List (Pathname × String)) (cs ds : List String) (n : Nat) :
    lineFiles files (cs ++ ds) n = lineFiles files cs n ++ lineFiles files ds n :=
  List.flatMap_append

theorem lineFiles_congr (h : ∀ c ∈ cs, ∀ i, files'.lookup (place c (i + 1) linesFile) =
    files.lookup (place c (i + 1) linesFile)) : lineFiles files' cs n = lineFiles files cs n := by
  induction cs with
  | nil => rfl
  | cons c cs ih =>
    rw [List.forall_mem_cons] at h
    rw [lineFiles, lineFiles, List.flatMap_cons, List.flatMap_cons, ← lineFiles, ← lineFiles, ih h.2]
    simp only [h.1]

theorem filterMap_range_extend {β : Type} {f g : Nat → Option β} {m n : Nat} {x : β} (hmn : m < n)
    (hbefore : ∀ i < m, g i = f i) (hnew : g m = some x) (hf : ∀ i, m ≤ i → f i = none)
    (hg : ∀ i, m < i → g i = none) :
    (List.range n).filterMap g = (List.range n).filterMap f ++ [x] := by
  induction n with
  | zero => omega
  | succ n ih =>
    rw [List.range_succ, List.filterMap_append, List.filterMap_append]
    rcases Nat.lt_succ_iff_lt_or_eq.mp hmn with hlt | rfl
    · rw [ih hlt]
      simp [hg n hlt, hf n (Nat.le_of_lt hlt)]
    · have hsame : (List.range m).filterMap g = (List.range m).filterMap f :=
        List.filterMap_congr fun i hi => hbefore i (List.mem_range.mp hi)
      rw [hsame]
      simp [hnew, hf m (Nat.le_refl m)]

end LineFiles

theorem pageOf_eq {lines : List String} (h : lines ≠ []) : "\n".intercalate lines ++ "\n" = pageOf lines := by
  induction lines with
  | nil => exact absurd rfl h
  | cons l lines ih =>
    cases lines with
    | nil => simp [pageOf]
    | cons m lines =>
      have hrest := ih (List.cons_ne_nil m lines)
      rw [String.intercalate_cons_cons, String.append_assoc, hrest]
      simp [pageOf, String.join_cons]

def Over (chapters : List String) (j : Journal) (p : Pathname) : Prop :=
  ∃ c r f, p = place c r f ∧ c ∈ chapters ∧ '/' ∉ f.toList ∧ 1 ≤ r ∧ (c = j.chapter → r < j.round)

def Open (j : Journal) (p : Pathname) : Prop :=
  ∃ f, p = place j.chapter j.round f ∧ '/' ∉ f.toList ∧ f ≠ linesFile

/-- After some chapters and at most so many rounds in each, a journal that was to hear the lines has kept them. -/
structure Kept (chapters : List String) (rounds : Nat) (lines : List String) (j : Journal) : Prop where
  names : ∀ c ∈ chapters, IsPart c
  nodup : chapters.Nodup
  last : ∃ before, chapters = before ++ [j.chapter]
  first : 1 ≤ j.round
  bound : j.round ≤ rounds + 1
  files : ∀ p ∈ Assoc.keys j.files, Over chapters j p ∨ j.written = true ∧ Open j p
  lines : ∃ groups : List (List String), (∀ n, rounds ≤ n → lineFiles j.files chapters n = groups.map pageOf) ∧
    groups.flatten ++ j.lines = lines

structure Step.Fits (chapters : List String) (step : Step) : Prop where
  name : ∀ name, step.chapter? = some name → IsPart name ∧ name ∉ chapters
  file : ∀ file, step.file? = some file → '/' ∉ file.toList ∧ file ≠ linesFile

theorem endRound_cases (j : Journal) :
    j.lines = [] ∧ j.written = false ∧ j.endRound = j ∨
    j.lines = [] ∧ j.written = true ∧ j.endRound = { j with round := j.round + 1, written := false } ∨
    j.lines ≠ [] ∧ j.endRound =
      { j with
        files := Assoc.set (place j.chapter j.round linesFile) (pageOf j.lines) j.files
        lines := []
        round := j.round + 1
        written := false } := by
  by_cases hlines : j.lines = []
  · cases hwritten : j.written with
    | false => exact .inl ⟨hlines, rfl, by simp [endRound, writeLines, hlines, hwritten]⟩
    | true => exact .inr (.inl ⟨hlines, rfl, by simp [endRound, writeLines, hlines, hwritten]⟩)
  · refine .inr (.inr ⟨hlines, ?_⟩)
    have hsome : j.lines.isEmpty = false := List.isEmpty_eq_false_iff.mpr hlines
    simp only [endRound, writeLines, hsome, write, ← pageOf_eq hlines]
    rfl

section Files

variable {j : Journal} {step : Step} {p : Pathname} {text : String}

theorem files_endRound (j : Journal) :
    j.endRound.files = ((Step.writes j .endRound).toList).foldl (fun files e => Assoc.set e.1 e.2 files) j.files := by
  rcases endRound_cases j with ⟨hlines, -, hend⟩ | ⟨hlines, -, hend⟩ | ⟨hlines, hend⟩
  · rw [hend, Step.writes, if_pos hlines]
    rfl
  · rw [hend, Step.writes, if_pos hlines]
    rfl
  · rw [hend, Step.writes, if_neg hlines]
    rfl

theorem files_apply (j : Journal) (step : Step) :
    (step.apply j).files = (step.writes j).toList.foldl (fun files e => Assoc.set e.1 e.2 files) j.files := by
  cases step with
  | close => exact files_endRound { j with listening := false }
  | beginChapter name => exact files_endRound j
  | endRound => exact files_endRound j
  | hear l =>
    simp only [Step.apply, hear]
    split <;> rfl
  | listen => rfl
  | write file contents => rfl
  | writeJson file contents => rfl

theorem files_foldl (steps : List Step) (j : Journal) :
    (steps.foldl Step.apply j).files = (writings j steps).foldl (fun files e => Assoc.set e.1 e.2 files) j.files := by
  induction steps generalizing j with
  | nil => rfl
  | cons step steps ih => rw [List.foldl_cons, ih, files_apply, writings, List.foldl_append]

theorem lookup_written (h : step.writes j = some (p, text)) : (step.apply j).files.lookup p = some text := by
  rw [files_apply, h]
  exact Assoc.lookup_set_self ..

theorem lookup_unwritten {steps : List Step} (h : p ∉ Assoc.keys (writings j steps)) :
    (steps.foldl Step.apply j).files.lookup p = j.files.lookup p := by
  rw [files_foldl]
  exact Assoc.lookup_foldl_set_of_not_mem h

theorem lines_apply (h : step.endsRound = true) (j : Journal) : (step.apply j).lines = [] := by
  have hend (j : Journal) : j.endRound.lines = [] := by
    rcases endRound_cases j with ⟨hlines, -, hend⟩ | ⟨hlines, -, hend⟩ | ⟨-, hend⟩ <;> rw [hend]
    · exact hlines
    · exact hlines
  cases step with
  | close => exact hend _
  | beginChapter name => exact hend j
  | endRound => exact hend j
  | _ => cases h

end Files

section Invariant

variable {cs : List String} {n : Nat} {ls : List String} {j : Journal} {p : Pathname}

theorem Kept.part (h : Kept cs n ls j) : IsPart j.chapter := by
  obtain ⟨before, hcs⟩ := h.last
  exact h.names _ (by simp [hcs])

theorem Kept.mem (h : Kept cs n ls j) : j.chapter ∈ cs := by
  obtain ⟨before, hcs⟩ := h.last
  simp [hcs]

theorem Kept.later (h : Kept cs n ls j) : Kept cs (n + 1) ls j where
  names := h.names
  nodup := h.nodup
  last := h.last
  first := h.first
  bound := h.bound.trans (Nat.le_succ _)
  files := h.files
  lines := by
    obtain ⟨groups, hpages, hlines⟩ := h.lines
    exact ⟨groups, fun m hm => hpages m (Nat.le_of_succ_le hm), hlines⟩

theorem Over.ne_place (hnames : ∀ c ∈ cs, IsPart c) (hpart : IsPart j.chapter) (h : Over cs j p) {file : String}
    (hfile : '/' ∉ file.toList) : p ≠ place j.chapter j.round file := by
  obtain ⟨c, r, f, rfl, hc, hf, -, hover⟩ := h
  intro heq
  obtain ⟨hchapter, hround, -⟩ := place_inj (hnames c hc) hf hpart hfile heq
  have hlt := hover hchapter
  omega

theorem Kept.no_lines (h : Kept cs n ls j) {r : Nat} (hr : j.round ≤ r) :
    j.files.lookup (place j.chapter r linesFile) = none := by
  rw [Assoc.lookup_eq_none_iff]
  intro hmem
  rcases h.files _ hmem with ⟨c, r', f, heq, hc, hf, -, hover⟩ | ⟨-, f, heq, hf, hne⟩
  · obtain ⟨rfl, rfl, -⟩ := place_inj h.part isPart_linesFile.2.2 (h.names c hc) hf heq
    have hlt := hover rfl
    omega
  · exact place_ne_lines h.part h.part hf hne heq

theorem Kept.over_of_next (h : Kept cs n ls j) (hp : p ∈ Assoc.keys j.files) :
    Over cs { j with round := j.round + 1, written := false } p := by
  rcases h.files p hp with ⟨c, r, f, rfl, hc, hf, hr, hover⟩ | ⟨-, f, rfl, hf, -⟩
  · exact ⟨c, r, f, rfl, hc, hf, hr, fun hchapter => (hover hchapter).trans (Nat.lt_succ_self _)⟩
  · exact ⟨j.chapter, j.round, f, rfl, h.mem, hf, h.first, fun _ => Nat.lt_succ_self _⟩

theorem Kept.lineFiles_set (h : Kept cs n ls j) {m : Nat} (hm : n < m) (page : String) :
    lineFiles (Assoc.set (place j.chapter j.round linesFile) page j.files) cs m =
      lineFiles j.files cs m ++ [page] := by
  obtain ⟨before, rfl⟩ := h.last
  have hother : ∀ c r, c ∈ before ++ [j.chapter] → (c = j.chapter → r ≠ j.round) →
      (Assoc.set (place j.chapter j.round linesFile) page j.files).lookup (place c r linesFile) =
        j.files.lookup (place c r linesFile) := by
    intro c r hc hne
    apply Assoc.lookup_set_of_ne
    intro heq
    obtain ⟨hchapter, hround, -⟩ := place_inj (h.names c hc) isPart_linesFile.2.2 h.part isPart_linesFile.2.2 heq
    exact hne hchapter hround
  have hnew : ∀ c ∈ before, c ≠ j.chapter := by
    rintro c hc rfl
    exact (List.nodup_append.mp h.nodup).2.2 _ hc _ (List.mem_singleton_self _) rfl
  have hbefore : lineFiles (Assoc.set (place j.chapter j.round linesFile) page j.files) before m =
      lineFiles j.files before m :=
    lineFiles_congr fun c hc i => hother c (i + 1) (by simp [hc]) fun heq => absurd heq (hnew c hc)
  rw [lineFiles_append, lineFiles_append, hbefore, List.append_assoc]
  congr 1
  rw [lineFiles, lineFiles, List.flatMap_singleton, List.flatMap_singleton]
  obtain ⟨i, hi⟩ : ∃ i, j.round = i + 1 := ⟨j.round - 1, by have := h.first; omega⟩
  have hbound := h.bound
  refine filterMap_range_extend (m := i) (by omega) ?_ ?_ ?_ ?_
  · intro k hk
    exact hother _ _ (by simp) fun _ => by omega
  · rw [← hi]
    exact Assoc.lookup_set_self ..
  · intro k hk
    exact h.no_lines (by omega)
  · intro k hk
    rw [hother _ _ (by simp) fun _ => by omega]
    exact h.no_lines (by omega)

theorem written_endRound (j : Journal) : j.endRound.written = false := by
  rcases endRound_cases j with ⟨-, hwritten, hend⟩ | ⟨-, -, hend⟩ | ⟨-, hend⟩ <;> rw [hend]
  exact hwritten

theorem written_apply {step : Step} (h : step.endsRound = true) (j : Journal) : (step.apply j).written = false := by
  cases step with
  | close => exact written_endRound _
  | beginChapter name => exact written_endRound j
  | endRound => exact written_endRound j
  | _ => cases h

theorem Kept.endRound (h : Kept cs n ls j) : Kept cs (n + 1) ls j.endRound := by
  rcases endRound_cases j with ⟨-, -, hend⟩ | ⟨-, -, hend⟩ | ⟨-, hend⟩ <;> rw [hend]
  · exact h.later
  · exact {
      h.later with
      first := Nat.le_add_left ..
      bound := Nat.succ_le_succ h.bound
      files := fun p hp => .inl (h.over_of_next hp) }
  · obtain ⟨groups, hpages, hgroups⟩ := h.lines
    exact {
      names := h.names
      nodup := h.nodup
      last := h.last
      first := Nat.le_add_left ..
      bound := Nat.succ_le_succ h.bound
      files := by
        intro p hp
        rcases Assoc.mem_keys_set.mp hp with rfl | hp
        · exact .inl ⟨j.chapter, j.round, linesFile, rfl, h.mem, isPart_linesFile.2.2, h.first,
            fun _ => Nat.lt_succ_self _⟩
        · exact .inl (h.over_of_next hp)
      lines := by
        refine ⟨groups ++ [j.lines], fun m hm => ?_, by simpa using hgroups⟩
        rw [h.lineFiles_set hm, hpages m (Nat.le_of_succ_le hm)]
        simp }

theorem Kept.begin (h : Kept cs n ls j) (hwritten : j.written = false) {name : String} (hname : IsPart name)
    (hnew : name ∉ cs) : Kept (cs ++ [name]) n ls { j with chapter := name, round := 1 } := by
  have hover {p : Pathname} (hp : p ∈ Assoc.keys j.files) : Over cs j p := by
    refine (h.files p hp).resolve_right fun hopen => ?_
    rw [hwritten] at hopen
    cases hopen.1
  have hnone : ∀ m, lineFiles j.files [name] m = [] := by
    intro m
    rw [lineFiles, List.flatMap_singleton, List.filterMap_eq_nil_iff]
    intro i _
    rw [Assoc.lookup_eq_none_iff]
    intro hmem
    obtain ⟨c, r, f, heq, hc, hf, -⟩ := hover hmem
    obtain ⟨rfl, -⟩ := place_inj hname isPart_linesFile.2.2 (h.names c hc) hf heq
    exact hnew hc
  obtain ⟨groups, hpages, hlines⟩ := h.lines
  exact {
    names := List.forall_mem_append.mpr ⟨h.names, by simpa using hname⟩
    nodup := List.nodup_append.mpr ⟨h.nodup, List.nodup_singleton _, by rintro c hc _ hd rfl; simp_all⟩
    last := ⟨cs, rfl⟩
    first := Nat.le_refl _
    bound := Nat.le_add_left ..
    files := by
      intro p hp
      obtain ⟨c, r, f, rfl, hc, hf, hr, -⟩ := hover hp
      refine .inl ⟨c, r, f, rfl, List.mem_append_left _ hc, hf, hr, ?_⟩
      rintro rfl
      exact absurd hc hnew
    lines := by
      refine ⟨groups, fun m hm => ?_, hlines⟩
      rw [lineFiles_append, hnone, List.append_nil, hpages m hm] }

theorem Kept.write (h : Kept cs n ls j) {file : String} (hfile : '/' ∉ file.toList) (hne : file ≠ linesFile)
    (contents : String) : Kept cs n ls (j.write file contents) := by
  obtain ⟨groups, hpages, hlines⟩ := h.lines
  exact {
    names := h.names
    nodup := h.nodup
    last := h.last
    first := h.first
    bound := h.bound
    files := by
      intro p hp
      rcases Assoc.mem_keys_set.mp hp with rfl | hp
      · exact .inr ⟨rfl, file, rfl, hfile, hne⟩
      · exact (h.files p hp).imp_right fun hopen => ⟨rfl, hopen.2⟩
    lines := by
      refine ⟨groups, fun m hm => ?_, hlines⟩
      rw [← hpages m hm]
      exact lineFiles_congr fun c hc i => Assoc.lookup_set_of_ne (place_ne_lines h.part (h.names c hc) hfile hne) .. }

theorem Kept.hear (h : Kept cs n ls j) (l : LogLine) :
    Kept cs n (ls ++ (Step.hear l).lines j.listening) (j.hear l) := by
  obtain ⟨groups, hpages, hlines⟩ := h.lines
  cases hlistening : j.listening with
  | false => simpa [Journal.hear, Step.lines, hlistening] using h
  | true =>
    simp only [Journal.hear, Step.lines, hlistening, if_true]
    exact { h with lines := ⟨groups, hpages, by simp [← hlines]⟩ }

theorem Kept.step (h : Kept cs n ls j) {step : Step} (hfits : step.Fits cs) :
    Kept (cs ++ step.chapter?.toList) (n + 1) (ls ++ step.lines j.listening) (step.apply j) := by
  cases step with
  | listen => simpa [Step.chapter?, Step.lines, Step.apply] using { h.later with }
  | close =>
    have hsilent : Kept cs n ls { j with listening := false } := { h with }
    simpa [Step.chapter?, Step.lines, Step.apply, close] using hsilent.endRound
  | hear l => simpa [Step.chapter?, Step.apply] using (h.hear l).later
  | beginChapter name =>
    obtain ⟨hname, hnew⟩ := hfits.name name rfl
    simpa [Step.chapter?, Step.lines, Step.apply, beginChapter] using h.endRound.begin (written_endRound j) hname hnew
  | endRound => simpa [Step.chapter?, Step.lines, Step.apply] using h.endRound
  | write file contents =>
    obtain ⟨hfile, hne⟩ := hfits.file file rfl
    simpa [Step.chapter?, Step.lines, Step.apply] using (h.write hfile hne contents).later
  | writeJson file contents =>
    obtain ⟨hfile, hne⟩ := hfits.file file rfl
    simpa [Step.chapter?, Step.lines, Step.apply, writeJson] using (h.write hfile hne (contents.text ++ "\n")).later

theorem listening_endRound (j : Journal) : j.endRound.listening = j.listening := by
  rcases endRound_cases j with ⟨-, -, hend⟩ | ⟨-, -, hend⟩ | ⟨-, hend⟩ <;> rw [hend]

theorem listening_apply (j : Journal) (step : Step) : (step.apply j).listening = step.listens j.listening := by
  cases step with
  | close => exact listening_endRound _
  | beginChapter name => exact listening_endRound j
  | endRound => exact listening_endRound j
  | hear l =>
    simp only [Step.apply, hear, Step.listens]
    split <;> rfl
  | _ => rfl

structure Ahead (cs : List String) (j j' : Journal) : Prop where
  place : j'.chapter = j.chapter ∧ j.round ≤ j'.round ∨ j'.chapter ∉ cs
  files : j'.files = j.files ∨
    ∃ f text, '/' ∉ f.toList ∧ j'.files = Assoc.set (Journal.place j.chapter j.round f) text j.files

theorem ahead_endRound (cs : List String) (j : Journal) : Ahead cs j j.endRound := by
  rcases endRound_cases j with ⟨-, -, hend⟩ | ⟨-, -, hend⟩ | ⟨-, hend⟩ <;> rw [hend]
  · exact ⟨.inl ⟨rfl, Nat.le_refl _⟩, .inl rfl⟩
  · exact ⟨.inl ⟨rfl, Nat.le_succ _⟩, .inl rfl⟩
  · exact ⟨.inl ⟨rfl, Nat.le_succ _⟩, .inr ⟨linesFile, _, isPart_linesFile.2.2, rfl⟩⟩

theorem ahead_apply {step : Step} (hfits : step.Fits cs) (j : Journal) : Ahead cs j (step.apply j) := by
  cases step with
  | listen => exact ⟨.inl ⟨rfl, Nat.le_refl _⟩, .inl rfl⟩
  | close => exact { ahead_endRound cs { j with listening := false } with }
  | hear l =>
    simp only [Step.apply, hear]
    split <;> exact ⟨.inl ⟨rfl, Nat.le_refl _⟩, .inl rfl⟩
  | beginChapter name => exact ⟨.inr (hfits.name name rfl).2, (ahead_endRound cs j).files⟩
  | endRound => exact ahead_endRound cs j
  | write file contents => exact ⟨.inl ⟨rfl, Nat.le_refl _⟩, .inr ⟨file, _, (hfits.file file rfl).1, rfl⟩⟩
  | writeJson file contents => exact ⟨.inl ⟨rfl, Nat.le_refl _⟩, .inr ⟨file, _, (hfits.file file rfl).1, rfl⟩⟩

theorem Over.ahead {j' : Journal} (hover : Over cs j p) (h : Ahead cs j j') : Over cs j' p := by
  obtain ⟨c, r, f, hp, hc, hf, hr, hpast⟩ := hover
  refine ⟨c, r, f, hp, hc, hf, hr, fun hchapter => ?_⟩
  rcases h.place with ⟨hsame, hround⟩ | hnew
  · exact (hpast (hchapter.trans hsame)).trans_le hround
  · exact absurd (hchapter ▸ hc) hnew

theorem Over.widen (hover : Over cs j p) (ds : List String) : Over (cs ++ ds) j p := by
  obtain ⟨c, r, f, hp, hc, hrest⟩ := hover
  exact ⟨c, r, f, hp, List.mem_append_left ds hc, hrest⟩

theorem Over.lookup_eq {j' : Journal} (hover : Over cs j p) (hk : Kept cs n ls j) (h : Ahead cs j j') :
    j'.files.lookup p = j.files.lookup p := by
  rcases h.files with hsame | ⟨f, text, hf, hset⟩
  · rw [hsame]
  · rw [hset, Assoc.lookup_set_of_ne (hover.ne_place hk.names hk.part hf)]

def Fit (cs : List String) : List Step → Prop
  | [] => True
  | step :: steps => step.Fits cs ∧ Fit (cs ++ step.chapter?.toList) steps

theorem chapters_cons (step : Step) (steps : List Step) :
    (step :: steps).filterMap Step.chapter? = step.chapter?.toList ++ steps.filterMap Step.chapter? := by
  cases h : step.chapter? <;> simp [h]

theorem fit_append {before after : List Step} :
    Fit cs (before ++ after) ↔ Fit cs before ∧ Fit (cs ++ before.filterMap Step.chapter?) after := by
  induction before generalizing cs with
  | nil => simp [Fit]
  | cons step before ih =>
    rw [List.cons_append, Fit, ih, Fit, chapters_cons, List.append_assoc, and_assoc]

theorem fit_of_distinct {steps : List Step} (hnames : ∀ name ∈ steps.filterMap Step.chapter?, IsPart name)
    (hnodup : (cs ++ steps.filterMap Step.chapter?).Nodup)
    (hfiles : ∀ file ∈ steps.filterMap Step.file?, '/' ∉ file.toList ∧ file ≠ linesFile) : Fit cs steps := by
  induction steps generalizing cs with
  | nil => trivial
  | cons step steps ih =>
    rw [chapters_cons] at hnames hnodup
    rw [List.forall_mem_append] at hnames
    rw [← List.append_assoc] at hnodup
    refine ⟨⟨fun name hname => ⟨hnames.1 name (by simp [hname]), ?_⟩, fun file hfile => hfiles file ?_⟩,
      ih hnames.2 hnodup fun file hfile => hfiles file ?_⟩
    · intro hmem
      have hfresh := (List.nodup_append.mp (List.nodup_append.mp hnodup).1).2.2
      exact hfresh name hmem name (by simp [hname]) rfl
    · exact List.mem_filterMap.mpr ⟨step, List.mem_cons_self, hfile⟩
    · obtain ⟨other, hmem, hother⟩ := List.mem_filterMap.mp hfile
      exact List.mem_filterMap.mpr ⟨other, List.mem_cons_of_mem _ hmem, hother⟩

theorem Kept.run {steps : List Step} (h : Kept cs n ls j) (hfit : Fit cs steps) :
    Kept (cs ++ steps.filterMap Step.chapter?) (n + steps.length) (ls ++ heard j.listening steps)
      (steps.foldl Step.apply j) := by
  induction steps generalizing cs n ls j with
  | nil => simpa [heard] using h
  | cons step steps ih =>
    have hnext := ih (h.step hfit.1) hfit.2
    rw [listening_apply] at hnext
    rw [chapters_cons, heard, List.foldl_cons, List.length_cons, ← List.append_assoc, ← List.append_assoc]
    rwa [Nat.add_assoc, Nat.add_comm 1] at hnext

theorem Over.lookup_run {steps : List Step} (hover : Over cs j p) (h : Kept cs n ls j) (hfit : Fit cs steps) :
    (steps.foldl Step.apply j).files.lookup p = j.files.lookup p := by
  induction steps generalizing cs n ls j with
  | nil => rfl
  | cons step steps ih =>
    have hahead := ahead_apply hfit.1 j
    rw [List.foldl_cons, ih ((hover.ahead hahead).widen _) (h.step hfit.1) hfit.2, hover.lookup_eq h hahead]

theorem Kept.lookup_run {steps : List Step} (h : Kept cs n ls j) (hwritten : j.written = false)
    (hp : p ∈ Assoc.keys j.files) (hfit : Fit cs steps) :
    (steps.foldl Step.apply j).files.lookup p = j.files.lookup p := by
  rcases h.files p hp with hover | ⟨hround, -⟩
  · exact hover.lookup_run h hfit
  · rw [hwritten] at hround
    cases hround

end Invariant

theorem kept_start : Kept ["init"] 0 [] {} where
  names := by decide
  nodup := List.nodup_singleton _
  last := ⟨[], rfl⟩
  first := Nat.le_refl _
  bound := Nat.le_refl _
  files := fun p hp => absurd hp List.not_mem_nil
  lines := by
    refine ⟨[], fun n _ => ?_, rfl⟩
    simp [lineFiles]

theorem Tidy.fit {steps : List Step} (h : Tidy steps) : Fit ["init"] steps := by
  refine fit_of_distinct (fun name hname => (h.names name hname).1.1) ?_ h.files
  exact List.nodup_cons.mpr ⟨fun hmem => (h.names _ hmem).2 rfl, h.distinct⟩

theorem kept_run {steps : List Step} (h : Fit ["init"] steps) :
    Kept (chapters steps) steps.length (heard false steps) (run steps) := by
  have hkept := kept_start.run h
  rwa [Nat.zero_add, List.nil_append] at hkept

theorem run_append (before after : List Step) : run (before ++ after) = after.foldl Step.apply (run before) :=
  List.foldl_append

theorem writes_of_endsRound {step : Step} {j : Journal} (h : step.endsRound = true) (hlines : j.lines ≠ []) :
    step.writes j = some (place j.chapter j.round linesFile, pageOf j.lines) := by
  cases step with
  | close => exact if_neg hlines
  | beginChapter name => exact if_neg hlines
  | endRound => exact if_neg hlines
  | _ => cases h

theorem lookup_lines {before after : List Step} {step : Step} (h : Fit ["init"] (before ++ [step] ++ after))
    (hends : step.endsRound = true) (hlines : (run before).lines ≠ []) :
    (run (before ++ [step] ++ after)).files.lookup (place (run before).chapter (run before).round linesFile) =
      some (pageOf (run before).lines) := by
  obtain ⟨hbefore, hafter⟩ := fit_append.mp h
  have hstep : run (before ++ [step]) = step.apply (run before) := run_append before [step]
  have hfirst : (run (before ++ [step])).files.lookup (place (run before).chapter (run before).round linesFile) =
      some (pageOf (run before).lines) := by
    rw [hstep]
    exact lookup_written (writes_of_endsRound hends hlines)
  have hwritten : (run (before ++ [step])).written = false := by
    rw [hstep]
    exact written_apply hends _
  have hmem := Assoc.lookup_isSome_iff.mp (Option.isSome_of_eq_some hfirst)
  rw [run_append, (kept_run hbefore).lookup_run hwritten hmem hafter, hfirst]

/-- The files of lines hold, in order and together with the lines held back, what was heard. Every file lies in a
round of a chapter, and from the time on at which the journal is in another round it stays as it is. A text that is
written is found at its place as long as nothing else is written there, and at the end of a round no line is held
back: they are in its file of lines for good. -/
theorem nothing_lost {steps : List Step} (h : Tidy steps) :
    (∃ groups : List (List String),
      (∀ n, steps.length ≤ n → lineFiles (run steps).files (chapters steps) n = groups.map pageOf) ∧
        groups.flatten ++ (run steps).lines = heard false steps) ∧
    (∀ p ∈ Assoc.keys (run steps).files,
      ∃ c ∈ chapters steps, ∃ r f, 1 ≤ r ∧ '/' ∉ f.toList ∧ p = place c r f) ∧
    (∀ before after, steps = before ++ after → ∀ c ∈ chapters before, ∀ r f, '/' ∉ f.toList →
      (c, r) ≠ ((run before).chapter, (run before).round) → place c r f ∈ Assoc.keys (run before).files →
        (run steps).files.lookup (place c r f) = (run before).files.lookup (place c r f)) ∧
    (∀ before step after, steps = before ++ [step] ++ after → ∀ p text, step.writes (run before) = some (p, text) →
      (run (before ++ [step])).files.lookup p = some text ∧
        (p ∉ Assoc.keys (writings (run (before ++ [step])) after) → (run steps).files.lookup p = some text)) ∧
    ∀ before step after, steps = before ++ [step] ++ after → step.endsRound = true →
      (run (before ++ [step])).lines = [] ∧ ((run before).lines ≠ [] →
        (run steps).files.lookup (place (run before).chapter (run before).round linesFile) =
          some (pageOf (run before).lines)) := by
  have hkept := kept_run h.fit
  refine ⟨hkept.lines, fun p hp => ?_, ?_, ?_, ?_⟩
  · rcases hkept.files p hp with ⟨c, r, f, rfl, hc, hf, hr, -⟩ | ⟨-, f, rfl, hf, -⟩
    · exact ⟨c, hc, r, f, hr, hf, rfl⟩
    · exact ⟨_, hkept.mem, _, f, hkept.first, hf, rfl⟩
  · rintro before after rfl c hc r f hf hpast hp
    obtain ⟨hbefore, hafter⟩ := fit_append.mp h.fit
    have hthen := kept_run hbefore
    have hover : Over (chapters before) (run before) (place c r f) := by
      refine (hthen.files _ hp).resolve_right ?_
      rintro ⟨-, g, heq, hg, -⟩
      obtain ⟨rfl, rfl, -⟩ := place_inj (hthen.names c hc) hf hthen.part hg heq
      exact hpast rfl
    rw [run_append]
    exact hover.lookup_run hthen hafter
  · rintro before step after rfl p text hwrites
    have hfirst : (run (before ++ [step])).files.lookup p = some text := by
      rw [run_append]
      exact lookup_written hwrites
    refine ⟨hfirst, fun hlater => ?_⟩
    rw [run_append, lookup_unwritten hlater, hfirst]
  · rintro before step after rfl hends
    refine ⟨?_, lookup_lines h.fit hends⟩
    rw [run_append]
    exact lines_apply hends _

def tour : List Step :=
  [.listen, .hear ⟨.info, "a"⟩, .write "note.txt" "one", .endRound, .write "note.txt" "two",
    .beginChapter "pages", .hear ⟨.warning, "b"⟩, .writeJson "data.json" (.bool true), .endRound, .hear ⟨.info, "c"⟩]

theorem nothing_lost_tour : Tidy tour ∧
    (run tour).files.lookup (place "init" 1 "note.txt") = some "one" ∧
    (run tour).files.lookup (place "pages" 1 "data.json") = some "true\n" ∧
    (run tour).files.lookup (place "pages" 1 linesFile) = some "WARNING: b\n" ∧
    ∃ groups : List (List String), lineFiles (run tour).files ["init", "pages"] 10 = groups.map pageOf ∧
      groups.flatten ++ (run tour).lines = ["INFO: a", "WARNING: b", "INFO: c"] := by
  have htidy : Tidy tour := ⟨by decide, by decide, by decide⟩
  obtain ⟨⟨groups, hpages, hlines⟩, -, hstays, hwritten, hends⟩ := nothing_lost htidy
  refine ⟨htidy, ?_, ?_, ?_, groups, hpages 10 (by decide), hlines⟩
  · rw [hstays (tour.take 4) (tour.drop 4) rfl "init" (by decide) 1 "note.txt" (by decide) (by decide)]
    · decide +kernel
    · decide +kernel
  · have hdata := hwritten (tour.take 7) (.writeJson "data.json" (.bool true)) (tour.drop 8) rfl
      (place "pages" 1 "data.json") "true\n" (by decide +kernel)
    exact hdata.2 (by decide +kernel)
  · have hround := hends (tour.take 8) .endRound (tour.drop 9) rfl rfl
    exact hround.2 (by decide +kernel)

end Journal

end Stencil
