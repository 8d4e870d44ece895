import Stencil.Proofs.Registry.Choice

/-!
The naming pass comes to an end and names every recorded scope: first the scopes that are reached from the root,
by a queue in which no scope stands twice, then the others, shorter paths before longer ones. So a scope is
named when the scope above it has all its names, if it ever gets any.
-/

namespace Stencil

namespace NameMap

def above? (names : NameMap) (scope : Scope) : Option String :=
  match scope.getLast? with
  | some key => names.name? scope.dropLast key
  | none => none

theorem above?_concat (names : NameMap) (scope : Scope) (key : String) :
    names.above? (scope ++ [key]) = names.name? scope key := by
  rw [above?, List.getLast?_concat, List.dropLast_concat]

end NameMap

namespace Registry

variable {g : Registry} {wanted : Scope → String → Bool} {names out : NameMap} {queue more : List Scope}
  {scope : Scope}

section Queue

def opened (g : Registry) (names : NameMap) (scope : Scope) : List Scope :=
  (((names.lookup scope).getD []).map fun e => scope ++ [e.1]).filter fun child =>
    Assoc.has child g.scopes && !Assoc.has child names

inductive QueueRun (g : Registry) (wanted : Scope → String → Bool) : List Scope → NameMap → NameMap → Prop
  | done (names : NameMap) : QueueRun g wanted [] names names
  | again {scope : Scope} {queue : List Scope} {names out : NameMap} (h : scope ∈ Assoc.keys names)
      (run : QueueRun g wanted queue names out) : QueueRun g wanted (scope :: queue) names out
  | visit {scope : Scope} {queue : List Scope} {names out : NameMap} (h : scope ∉ Assoc.keys names)
      (run : QueueRun g wanted (queue ++ g.opened (g.nameScope wanted names scope) scope)
        (g.nameScope wanted names scope) out) : QueueRun g wanted (scope :: queue) names out

structure Waiting (g : Registry) (queue : List Scope) (names : NameMap) : Prop where
  nodup : (queue ++ Assoc.keys names).Nodup
  known : ∀ s ∈ queue ++ Assoc.keys names, s = [] ∨ s ∈ Assoc.keys g.scopes
  above : ∀ s key, s ++ [key] ∈ queue ++ Assoc.keys names → s ∈ Assoc.keys names

theorem Waiting.start : Waiting g [[]] [] where
  nodup := List.nodup_singleton []
  known s hs := .inl (by simpa using hs)
  above s key hs := by simp at hs

theorem Waiting.length_le (h : Waiting g queue names) :
    queue.length + (Assoc.keys names).length ≤ g.scopes.length + 1 := by
  have hsub : queue ++ Assoc.keys names ⊆ [] :: Assoc.keys g.scopes := by
    intro s hs
    exact List.mem_cons.mpr (h.known s hs)
  have hle := h.nodup.length_le_of_subset hsub
  simpa only [List.length_append, List.length_cons, Assoc.keys, List.length_map] using hle

theorem Waiting.not_named (h : Waiting g (scope :: queue) names) : scope ∉ Assoc.keys names := by
  intro hs
  exact (List.nodup_append.mp h.nodup).2.2 scope List.mem_cons_self scope hs rfl

theorem keys_nameScope (h : scope ∉ Assoc.keys names) :
    Assoc.keys (g.nameScope wanted names scope) = Assoc.keys names ++ [scope] :=
  Assoc.keys_set_of_not_mem h

theorem mem_opened {s : Scope} (h : s ∈ g.opened names scope) :
    (∃ key, s = scope ++ [key]) ∧ s ∈ Assoc.keys g.scopes ∧ s ∉ Assoc.keys names := by
  obtain ⟨hmap, hopen⟩ := List.mem_filter.mp h
  obtain ⟨e, -, rfl⟩ := List.mem_map.mp hmap
  rw [Bool.and_eq_true, Bool.not_eq_true', ← Bool.not_eq_true, Assoc.has_iff, Assoc.has_iff] at hopen
  exact ⟨⟨e.1, rfl⟩, hopen⟩

theorem nodup_opened : (g.opened (g.nameScope wanted names scope) scope).Nodup := by
  rw [opened, nameScope, Assoc.lookup_set_self, Option.getD_some]
  apply List.Nodup.filter
  have hkeys := nodup_keys_scopeNames (!scope.isEmpty) (names.above? scope)
    ((g.entries scope).filter fun e => wanted scope e.key)
  have h := hkeys.map (f := fun key => scope ++ [key]) fun _ _ he =>
    List.singleton_inj.mp (List.append_cancel_left he)
  rw [Assoc.keys, List.map_map] at h
  exact h

theorem perm_visit (h : scope ∉ Assoc.keys names) (queue opened : List Scope) :
    (queue ++ opened ++ Assoc.keys (g.nameScope wanted names scope)).Perm
      (scope :: queue ++ Assoc.keys names ++ opened) := by
  rw [keys_nameScope h, List.perm_iff_count]
  intro s
  simp only [List.count_append, List.count_cons, List.count_nil]
  omega

theorem Waiting.visit (h : Waiting g (scope :: queue) names) :
    Waiting g (queue ++ g.opened (g.nameScope wanted names scope) scope) (g.nameScope wanted names scope) := by
  have hscope := h.not_named
  let opened := g.opened (g.nameScope wanted names scope) scope
  have hperm : (queue ++ opened ++ Assoc.keys (g.nameScope wanted names scope)).Perm
      (scope :: queue ++ Assoc.keys names ++ opened) := perm_visit hscope queue opened
  constructor
  · rw [hperm.nodup_iff, List.nodup_append]
    refine ⟨h.nodup, nodup_opened, ?_⟩
    rintro s hs _ hopened rfl
    obtain ⟨⟨key, rfl⟩, -⟩ := mem_opened hopened
    exact hscope (h.above scope key hs)
  · intro s hs
    rcases List.mem_append.mp (hperm.mem_iff.mp hs) with hs | hs
    · exact h.known s hs
    · exact .inr (mem_opened hs).2.1
  · intro s key hs
    rw [mem_keys_nameScope]
    rcases List.mem_append.mp (hperm.mem_iff.mp hs) with hs | hs
    · exact .inr (h.above s key hs)
    · obtain ⟨⟨key', he⟩, -⟩ := mem_opened hs
      exact .inl (List.append_inj_left' he rfl)

theorem nameQueue_run (fuel : Nat) (h : Waiting g queue names)
    (hfuel : g.scopes.length + 1 ≤ fuel + (Assoc.keys names).length) :
    QueueRun g wanted queue names (g.nameQueue wanted fuel queue names) := by
  induction fuel generalizing queue names with
  | zero =>
    have hqueue : queue = [] := by
      apply List.eq_nil_of_length_eq_zero
      have hle := h.length_le
      omega
    subst hqueue
    exact .done names
  | succ fuel ih =>
    cases queue with
    | nil => exact .done names
    | cons scope queue =>
      have hscope := h.not_named
      rw [nameQueue, if_neg (by rwa [Assoc.has_iff])]
      apply QueueRun.visit hscope
      apply ih h.visit
      rw [keys_nameScope hscope, List.length_append, List.length_singleton]
      omega

theorem QueueRun.waiting (run : QueueRun g wanted queue names out) (h : Waiting g queue names) :
    Waiting g [] out := by
  induction run with
  | done names => exact h
  | again hscope run ih => exact absurd hscope h.not_named
  | visit hscope run ih => exact ih h.visit

theorem QueueRun.named (run : QueueRun g wanted queue names out) :
    ∀ s ∈ queue ++ Assoc.keys names, s ∈ Assoc.keys out := by
  induction run with
  | done names => exact fun s hs => hs
  | again hscope run ih =>
    intro s hs
    apply ih
    rcases List.mem_cons.mp hs with rfl | hs
    · exact List.mem_append_right _ hscope
    · exact hs
  | visit hscope run ih =>
    intro s hs
    apply ih
    rw [(perm_visit hscope _ _).mem_iff]
    exact List.mem_append_left _ hs

end Queue

section Sweep

def Settled (g : Registry) (wanted : Scope → String → Bool) (names : NameMap) : Prop :=
  ∀ ⦃scope found⦄, names.lookup scope = some found →
    found = scopeNames (!scope.isEmpty) (names.above? scope)
      ((g.entries scope).filter fun e => wanted scope e.key)

theorem above?_nameScope {c : Scope} (h : ∀ key, c ≠ scope ++ [key]) :
    (g.nameScope wanted names scope).above? c = names.above? c := by
  rcases List.eq_nil_or_concat' c with rfl | ⟨s, key, rfl⟩
  · rfl
  · have hs : s ≠ scope := by
      rintro rfl
      exact h key rfl
    rw [NameMap.above?_concat, NameMap.above?_concat, NameMap.name?, nameScope, Assoc.lookup_set_of_ne hs,
      NameMap.name?]

theorem Settled.nameScope (h : Settled g wanted names) (hbelow : ∀ key, scope ++ [key] ∉ Assoc.keys names) :
    Settled g wanted (g.nameScope wanted names scope) := by
  intro c found hc
  by_cases he : c = scope
  · subst he
    rw [above?_nameScope (by simp)]
    rw [Registry.nameScope, Assoc.lookup_set_self] at hc
    exact (Option.some.inj hc).symm
  · rw [Registry.nameScope, Assoc.lookup_set_of_ne he] at hc
    rw [above?_nameScope]
    · exact h hc
    · rintro key rfl
      exact hbelow key (Assoc.mem_keys_of_lookup hc)

theorem QueueRun.settled (run : QueueRun g wanted queue names out) (h : Waiting g queue names)
    (hnames : Settled g wanted names) : Settled g wanted out := by
  induction run with
  | done names => exact hnames
  | again hscope run ih => exact absurd hscope h.not_named
  | visit hscope run ih =>
    apply ih h.visit
    apply hnames.nameScope
    intro key hkey
    exact hscope (h.above _ key (List.mem_append_right _ hkey))

structure Sweeping (g : Registry) (wanted : Scope → String → Bool) (more : List Scope) (names : NameMap) :
    Prop where
  sorted : more.Pairwise fun s t => s.length ≤ t.length
  recorded : ∀ s ∈ more, s ∈ Assoc.keys g.scopes
  left : ∀ s ∈ Assoc.keys g.scopes, s ∈ Assoc.keys names ∨ s ∈ more
  known : ∀ s ∈ Assoc.keys names, s = [] ∨ s ∈ Assoc.keys g.scopes
  above : ∀ s key, s ++ [key] ∈ Assoc.keys names → s ∈ Assoc.keys g.scopes → s ∈ Assoc.keys names
  settled : Settled g wanted names

theorem Sweeping.skip (h : Sweeping g wanted (scope :: more) names) (hscope : scope ∈ Assoc.keys names) :
    Sweeping g wanted more names where
  sorted := (List.pairwise_cons.mp h.sorted).2
  recorded s hs := h.recorded s (List.mem_cons_of_mem _ hs)
  left s hs := by
    rcases h.left s hs with hs | hs
    · exact .inl hs
    · rcases List.mem_cons.mp hs with rfl | hs
      · exact .inl hscope
      · exact .inr hs
  known := h.known
  above := h.above
  settled := h.settled

theorem Sweeping.visit (h : Sweeping g wanted (scope :: more) names) (hscope : scope ∉ Assoc.keys names) :
    Sweeping g wanted more (g.nameScope wanted names scope) where
  sorted := (List.pairwise_cons.mp h.sorted).2
  recorded s hs := h.recorded s (List.mem_cons_of_mem _ hs)
  left s hs := by
    rw [mem_keys_nameScope]
    have hs := h.left s hs
    rw [List.mem_cons] at hs
    tauto
  known s hs := by
    rcases mem_keys_nameScope.mp hs with rfl | hs
    · exact .inr (h.recorded _ List.mem_cons_self)
    · exact h.known s hs
  above s key hs hrecorded := by
    rw [mem_keys_nameScope]
    rcases mem_keys_nameScope.mp hs with he | hs
    · -- a recorded scope above this one is shorter, so that its turn has come before
      rcases h.left s hrecorded with hs | hs
      · exact .inr hs
      · have hlength := congrArg List.length he
        rw [List.length_append, List.length_singleton] at hlength
        rcases List.mem_cons.mp hs with hs | hs
        · exact .inl hs
        · have hle := (List.pairwise_cons.mp h.sorted).1 s hs
          omega
    · exact .inr (h.above s key hs hrecorded)
  settled := by
    apply h.settled.nameScope
    intro key hkey
    exact hscope (h.above scope key hkey (h.recorded scope List.mem_cons_self))

theorem Sweeping.run (h : Sweeping g wanted more names) :
    Sweeping g wanted [] (more.foldl (fun names scope =>
      if Assoc.has scope names then names else g.nameScope wanted names scope) names) := by
  induction more generalizing names with
  | nil => exact h
  | cons scope more ih =>
    rw [List.foldl_cons]
    split
    · next hhas => exact ih (h.skip (Assoc.has_iff.mp hhas))
    · next hhas => exact ih (h.visit fun hscope => hhas (Assoc.has_iff.mpr hscope))

def byDepth (g : Registry) : List Scope :=
  (Assoc.keys g.scopes).mergeSort fun s t => s.length ≤ t.length

theorem queue_run : QueueRun g wanted [[]] [] (g.nameQueue wanted (g.scopes.length + 1) [[]] []) :=
  nameQueue_run _ .start (Nat.le_refl _)

theorem sweeping_start : Sweeping g wanted g.byDepth (g.nameQueue wanted (g.scopes.length + 1) [[]] []) where
  sorted := by
    apply (List.pairwise_mergeSort ?_ ?_ (Assoc.keys g.scopes)).imp of_decide_eq_true
    · intro a b c hab hbc
      rw [decide_eq_true_eq] at *
      omega
    · intro a b
      rw [Bool.or_eq_true, decide_eq_true_eq, decide_eq_true_eq]
      omega
  recorded s hs := List.mem_mergeSort.mp hs
  left s hs := .inr (List.mem_mergeSort.mpr hs)
  known := (queue_run.waiting .start).known
  above s key hs _ := (queue_run.waiting .start).above s key hs
  settled := queue_run.settled .start fun scope found h => by cases h

theorem sweeping_displayNames : Sweeping g wanted [] (g.displayNames wanted) :=
  sweeping_start.run

theorem mem_keys_displayNames :
    scope ∈ Assoc.keys (g.displayNames wanted) ↔ scope = [] ∨ scope ∈ Assoc.keys g.scopes := by
  constructor
  · exact sweeping_displayNames.known scope
  · rintro (rfl | hscope)
    · exact mem_keys_passed _ (.inl (queue_run.named [] (by simp)))
    · exact mem_keys_passed _ (.inr (List.mem_mergeSort.mpr hscope))

end Sweep

def sweep (g : Registry) (wanted : Scope → String → Bool) (names : NameMap) : NameMap :=
  g.byDepth.foldl (fun names scope =>
    if Assoc.has scope names then names else g.nameScope wanted names scope) names

/-- The queue of the naming pass runs empty, every scope that has entries gets names, and the names of a scope are
good ones. Below a key `k` the name of `k` is avoided by every key that has a candidate left to it. -/
theorem displayNames_complete (hg : Entered g) (wanted : Scope → String → Bool) :
    (∃ names, QueueRun g wanted [[]] [] names ∧ g.displayNames wanted = g.sweep wanted names) ∧
    (∀ scope, scope ∈ Assoc.keys (g.displayNames wanted) ↔ scope = [] ∨ scope ∈ Assoc.keys g.scopes) ∧
    ∀ scope found, (g.displayNames wanted).lookup scope = some found →
      WellNamed g wanted scope found ∧
      ∀ p k, scope = p ++ [k] → ∀ e ∈ g.entries scope, ∀ name, found.lookup e.key = some name →
        name ∈ (e.candidates true).map Key.normalize →
        ((g.displayNames wanted).name? p k ≠ some name ↔
          ∃ c ∈ e.candidates true, Usable ((g.displayNames wanted).name? p k) found e.key c) := by
  refine ⟨⟨_, queue_run, rfl⟩, fun scope => mem_keys_displayNames, ?_⟩
  intro scope found hlookup
  have hfound := sweeping_displayNames.settled hlookup
  constructor
  · rw [hfound]
    exact wellNamed_scopeNames hg.sound _ _
  · rintro p k rfl e he name hname hcandidate
    have hnested : (!(p ++ [k]).isEmpty) = true := by simp
    rw [NameMap.above?_concat, hnested] at hfound
    exact ne_above_iff hg.sound he hfound hname hcandidate

def twins : Registry :=
  let source : Tag := { name := "text" }
  let root := (({} : Registry).record [] "text" .text (some source) none).record [] "text_0" .conditional
    (some source) none
  (root.record ["text_0"] "text" .text (some source) none).record ["text_0"] "text_0" .text (some source) none

theorem entered_twins : Entered twins := by
  have htext : Key.Normal "text" := by
    unfold Key.Normal
    decide +kernel
  have htext_0 : Key.Normal "text_0" := by
    unfold Key.Normal
    decide +kernel
  exact (((Entered.empty.record htext (by decide) [] .text _ none).record htext_0 (by decide) []
    .conditional _ none).record htext (by decide) ["text_0"] .text _ none).record htext_0 (by decide)
    ["text_0"] .text _ none

theorem displayNames_complete_twins :
    Entered twins ∧ ∃ found, (twins.displayNames fun _ _ => true).lookup ["text_0"] = some found ∧
      WellNamed twins (fun _ _ => true) ["text_0"] found := by
  obtain ⟨-, hscopes, hnames⟩ := displayNames_complete entered_twins fun _ _ => true
  have hscope : ["text_0"] ∈ Assoc.keys (twins.displayNames fun _ _ => true) :=
    (hscopes _).mpr (.inr (by decide +kernel))
  obtain ⟨found, hfound⟩ := Option.isSome_iff_exists.mp (Assoc.lookup_isSome_iff.mpr hscope)
  exact ⟨entered_twins, found, hfound, (hnames _ _ hfound).1⟩

/-- A key that had to take a number has the name of the key above, which is one of its own candidates. -/
theorem twins_share_name :
    Entered twins ∧ ∃ e ∈ twins.entries ["text_0"],
      (twins.displayNames fun _ _ => true).name? ["text_0"] e.key = some "text_0" ∧
      "text_0" ∈ (e.candidates true).map Key.normalize ∧
      (twins.displayNames fun _ _ => true).name? [] "text_0" = some "text_0" := by
  refine ⟨entered_twins, ⟨"text_0", .text, some (Tag.context { name := "text" }), none, []⟩, ?_, ?_, ?_, ?_⟩
  · cbv
    exact List.mem_cons_of_mem _ List.mem_cons_self
  · cbv
  · cbv
    exact List.mem_cons_of_mem _ (List.mem_cons_of_mem _ List.mem_cons_self)
  · cbv

end Registry

end Stencil
