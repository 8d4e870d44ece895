import Stencil.Proofs.Merge.Built
import Stencil.Proofs.Record
import Stencil.Proofs.Registry.Coverage

/-!
No key is given out twice in one scope. A key that is given out is entered in the registry, which forgets no
key, however merges go on, move values and start over, and also if they fail.
-/

namespace Stencil.Merge

variable {β γ : Type} {s t u : MergeState}

structure Issue where
  chain : Scope
  key : String
  before : MergeState

structure Issue.Fresh (i : Issue) : Prop where
  normal : Key.Normal i.key
  nonempty : i.key ≠ ""
  left : i.key ∉ Assoc.keys i.before.left
  right : i.key ∉ Assoc.keys i.before.right
  registry : i.key ∉ i.before.registry.keys i.chain

inductive Issues : {β : Type} → Merge β → MergeState → List Issue → Prop
  | plain {β : Type} {m : Merge β} (h : Plain m) (s : MergeState) : Issues m s []
  | given {chain : Scope} {enclosing : Option Tag} {suffix : String} {kind : Variation} {source : Option Tag}
      {attr : Option String} {s t : MergeState} {key : String}
      (h : Returns (newKey chain enclosing suffix kind source attr) s key t) :
      Issues (newKey chain enclosing suffix kind source attr) s [⟨chain, key, s⟩]
  | refused {chain : Scope} {enclosing : Option Tag} {suffix : String} {kind : Variation} {source : Option Tag}
      {attr : Option String} {s t : MergeState} {f : Failure}
      (h : (newKey chain enclosing suffix kind source attr).run s = (.error f, t)) :
      Issues (newKey chain enclosing suffix kind source attr) s []
  | bind {β γ : Type} {m : Merge β} {f : β → Merge γ} {s t : MergeState} {x : β} {issues more : List Issue}
      (hm : Issues m s issues) (hx : Returns m s x t) (hf : Issues (f x) t more) :
      Issues (m >>= f) s (issues ++ more)
  | fail {β γ : Type} {m : Merge β} {f : β → Merge γ} {s t : MergeState} {e : Failure} {issues : List Issue}
      (hm : Issues m s issues) (he : m.run s = (.error e, t)) : Issues (m >>= f) s issues
  | inScope {β : Type} {m : Merge β} {s : MergeState} {issues : List Issue}
      (hm : Issues m { s with left := [], right := [] } issues) : Issues (inScope m) s issues

theorem Built.issues {m : Merge β} (h : Built m) (s : MergeState) : ∃ issues, Issues m s issues := by
  induction h generalizing s with
  | plain h => exact ⟨[], .plain h s⟩
  | newKey chain enclosing suffix kind source attr =>
    rcases hrun : (Merge.newKey chain enclosing suffix kind source attr).run s with ⟨_ | key, t⟩
    · exact ⟨[], .refused hrun⟩
    · exact ⟨_, .given hrun⟩
  | @bind _ _ m f _ _ ih ihf =>
    obtain ⟨issues, hm⟩ := ih s
    rcases hrun : m.run s with ⟨_ | x, t⟩
    · exact ⟨issues, .fail hm hrun⟩
    · obtain ⟨more, hf⟩ := ihf x t
      exact ⟨issues ++ more, .bind hm hrun hf⟩
  | inScope _ ih =>
    obtain ⟨issues, hm⟩ := ih { s with left := [], right := [] }
    exact ⟨issues, .inScope hm⟩

def NoNews (s t : MergeState) : Prop :=
  ∀ c, ∀ k ∈ t.registry.keys c, ∃ c', k ∈ s.registry.keys c'

structure Issued (s : MergeState) (issues : List Issue) (t : MergeState) : Prop where
  grows : s.registry.Grows t.registry
  all : ∀ c, ∀ k ∈ t.registry.keys c, (∃ c', k ∈ s.registry.keys c') ∨ ∃ i ∈ issues, i.key = k
  new : ∀ i ∈ issues, i.key ∉ s.registry.keys i.chain
  known : ∀ i ∈ issues, i.key ∈ t.registry.keys i.chain
  apart : issues.Pairwise fun i j => i.chain = j.chain → i.key ≠ j.key
  fresh : ∀ i ∈ issues, i.Fresh

theorem Issued.nil (h : s.registry.Grows t.registry) (hnone : NoNews s t) : Issued s [] t where
  grows := h
  all c k hk := .inl (hnone c k hk)
  new _ hi := absurd hi List.not_mem_nil
  known _ hi := absurd hi List.not_mem_nil
  apart := .nil
  fresh _ hi := absurd hi List.not_mem_nil

theorem Issued.append {issues more : List Issue} (h : Issued s issues t) (h' : Issued t more u) :
    Issued s (issues ++ more) u where
  grows := h.grows.trans h'.grows
  all c k hk := by
    rcases h'.all c k hk with ⟨c', hk⟩ | ⟨i, hi, hkey⟩
    · rcases h.all c' k hk with hold | ⟨i, hi, hkey⟩
      · exact .inl hold
      · exact .inr ⟨i, List.mem_append_left _ hi, hkey⟩
    · exact .inr ⟨i, List.mem_append_right _ hi, hkey⟩
  new i hi := by
    rcases List.mem_append.mp hi with hi | hi
    · exact h.new i hi
    · exact fun hk => h'.new i hi (h.grows _ _ hk)
  known i hi := by
    rcases List.mem_append.mp hi with hi | hi
    · exact h'.grows _ _ (h.known i hi)
    · exact h'.known i hi
  apart := by
    refine List.pairwise_append.mpr ⟨h.apart, h'.apart, ?_⟩
    -- the registry in between knows the earlier key and does not know the later one
    intro i hi j hj hchain hkey
    apply h'.new j hj
    rw [← hchain, ← hkey]
    exact h.known i hi
  fresh i hi := by
    rcases List.mem_append.mp hi with hi | hi
    · exact h.fresh i hi
    · exact h'.fresh i hi

theorem registry_foldl_addLine (complaints : List String) (s : MergeState) :
    (complaints.foldl (fun s c => s.addLine .error c) s).registry = s.registry := by
  induction complaints generalizing s with
  | nil => rfl
  | cons c complaints ih => exact ih (s.addLine .error c)

theorem Plain.grows {m : Merge β} (h : Plain m) (s : MergeState) :
    s.registry.Grows (m.run s).2.registry := by
  cases h with
  | copyEntry scope key target =>
    intro c k hk
    exact Registry.mem_keys_copyEntry.mpr (.inr hk)
  | complain complaints =>
    change s.registry.Grows (complaints.foldl (fun s c => s.addLine .error c) s).registry
    rw [registry_foldl_addLine]
    exact .refl _
  | put side | remove side => cases side <;> exact .refl _
  | _ => exact .refl _

theorem NoNews.refl (s : MergeState) : NoNews s s :=
  fun c _ hk => ⟨c, hk⟩

theorem Plain.noNews {m : Merge β} (h : Plain m) (s : MergeState) : NoNews s (m.run s).2 := by
  cases h with
  | copyEntry scope key target =>
    intro c k hk
    rcases Registry.mem_keys_copyEntry.mp hk with ⟨-, rfl, hk⟩ | hk
    · exact ⟨scope, hk⟩
    · exact ⟨c, hk⟩
  | complain complaints =>
    change NoNews s (complaints.foldl (fun s c => s.addLine .error c) s)
    rw [NoNews, registry_foldl_addLine]
    exact NoNews.refl s
  | put side | remove side => cases side <;> exact .refl s
  | _ => exact .refl s

section NewKey

variable {chain : Scope} {enclosing source : Option Tag} {suffix key : String} {kind : Variation}
  {attr : Option String}

theorem run_newKey : (newKey chain enclosing suffix kind source attr).run s =
    match Record.uniqueName ⟨chain, s.left⟩ enclosing "" suffix (s.registry.keys chain ++ Assoc.keys s.right) with
    | .ok key => (.ok key, { s with registry := s.registry.record chain key kind source attr })
    | .error f => (.error f, s) := by
  rw [newKey, run_bind_of_returns (returns_get.mpr ⟨rfl, rfl⟩)]
  dsimp only
  cases Record.uniqueName ⟨chain, s.left⟩ enclosing "" suffix (s.registry.keys chain ++ Assoc.keys s.right) <;> rfl

theorem issued_newKey (h : Returns (newKey chain enclosing suffix kind source attr) s key t) :
    Issued s [⟨chain, key, s⟩] t := by
  have hne : key ≠ "" := by
    rw [Returns, run_newKey] at h
    split at h
    · next name hname =>
      cases h
      exact ((Record.answers ..).given key hname).2.1
    · cases h
  obtain ⟨hnormal, hregistry, hleft, hright, rfl⟩ := returns_newKey h
  constructor
  · intro c k hk
    exact Registry.mem_keys_record.mpr (.inr hk)
  · intro c k hk
    rcases Registry.mem_keys_record.mp hk with ⟨-, rfl⟩ | hk
    · exact .inr ⟨_, List.mem_singleton_self _, rfl⟩
    · exact .inl ⟨c, hk⟩
  · intro i hi
    rw [List.mem_singleton.mp hi]
    exact hregistry
  · intro i hi
    rw [List.mem_singleton.mp hi]
    exact Registry.mem_keys_record.mpr (.inl ⟨rfl, rfl⟩)
  · exact List.pairwise_singleton _ _
  · intro i hi
    rw [List.mem_singleton.mp hi]
    exact ⟨hnormal, hne, hleft, hright, hregistry⟩

theorem state_of_refused {f : Failure}
    (h : (newKey chain enclosing suffix kind source attr).run s = (.error f, t)) : t = s := by
  rw [run_newKey] at h
  split at h
  · cases h
  · cases h
    rfl

end NewKey

theorem Issues.issued {m : Merge β} {issues : List Issue} (h : Issues m s issues) :
    Issued s issues (m.run s).2 := by
  induction h with
  | plain h s => exact .nil (h.grows s) (h.noNews s)
  | given h =>
    rw [h]
    exact issued_newKey h
  | refused h =>
    rw [h, state_of_refused h]
    exact .nil (.refl _) (.refl _)
  | bind hm hx hf ih ihf =>
    rw [hx] at ih
    rw [run_bind_of_returns hx]
    exact ih.append ihf
  | fail hm he ih =>
    rw [he] at ih
    rw [run_bind_of_error he]
    exact ih
  | inScope hm ih => exact ⟨ih.grows, ih.all, ih.new, ih.known, ih.apart, ih.fresh⟩

structure Call where
  {Result : Type}
  merge : Merge Result
  left : Fields
  right : Fields

def Call.enter (c : Call) (s : MergeState) : MergeState :=
  { s with left := c.left, right := c.right }

inductive Serves : List Call → MergeState → List Issue → Prop
  | nil (s : MergeState) : Serves [] s []
  | cons {c : Call} {calls : List Call} {s : MergeState} {issues more : List Issue}
      (h : Issues c.merge (c.enter s) issues) (hrest : Serves calls (c.merge.run (c.enter s)).2 more) :
      Serves (c :: calls) s (issues ++ more)

theorem Serves.issued {calls : List Call} {issues : List Issue} (h : Serves calls s issues) :
    ∃ t, Issued s issues t := by
  induction h with
  | nil s => exact ⟨s, .nil (.refl _) (.refl _)⟩
  | cons h _ ih =>
    obtain ⟨t, ht⟩ := ih
    have hc := h.issued
    exact ⟨t, Issued.append ⟨hc.grows, hc.all, hc.new, hc.known, hc.apart, hc.fresh⟩ ht⟩

theorem exists_serves {calls : List Call} (h : ∀ c ∈ calls, Built c.merge) (s : MergeState) :
    ∃ issues, Serves calls s issues := by
  induction calls generalizing s with
  | nil => exact ⟨[], .nil s⟩
  | cons c calls ih =>
    obtain ⟨hc, hcalls⟩ := List.forall_mem_cons.mp h
    obtain ⟨issues, hissues⟩ := hc.issues (c.enter s)
    obtain ⟨more, hmore⟩ := ih hcalls (c.merge.run (c.enter s)).2
    exact ⟨issues ++ more, .cons hissues hmore⟩

/-- What an engine is asked for: to merge lists or nodes, or to fit a template with a merge that is built of the
steps that merges have. -/
inductive Request (α : Type) [Grade α] : {β : Type} → Merge β → Prop
  | lists (chain : Scope) (around : Around) (as bs : List Node) : Request α (lists α chain around as bs)
  | nodes (chain : Scope) (around : Around) (a b : Node) : Request α (nodes α chain around a b)
  | extract {τ σ : Type} {fit : τ → σ → Merge τ} (h : ∀ template source, Built (fit template source))
      (same : τ → τ → Bool) (template : τ) (sources : List σ) : Request α (extract same fit template sources)

theorem Request.built {α : Type} [Grade α] {m : Merge β} (h : Request α m) : Built m := by
  cases h with
  | lists chain around as bs => exact built_lists as bs
  | nodes chain around a b => exact built_nodes a b
  | extract h same template sources => exact built_extract template sources

/-- A new key is a free name, and is refused only if all names are taken. Whatever an engine is asked for, one call
after the other, the keys that it gives out in one scope all differ, and each of them was nowhere before. -/
theorem keys_fresh {α : Type} [Grade α] (calls : List Call) (hcalls : ∀ c ∈ calls, Request α c.merge)
    (s : MergeState) :
    (∀ r enclosing before after reserved, Record.Answers r enclosing before after reserved) ∧
    (∃ issues, Serves calls s issues) ∧
    ∀ issues, Serves calls s issues →
      (issues.Pairwise fun i j => i.chain = j.chain → i.key ≠ j.key) ∧ ∀ i ∈ issues, i.Fresh := by
  refine ⟨Record.answers, exists_serves (fun c hc => (hcalls c hc).built) s, fun issues h => ?_⟩
  obtain ⟨t, ht⟩ := h.issued
  exact ⟨ht.apart, ht.fresh⟩

theorem keys_fresh_texts :
    let call : Call := ⟨lists Rat [] {} [.literal .text "one"] [.literal .text "two"], [], []⟩
    (∀ c ∈ [call, call], Request Rat c.merge) ∧ ∃ issues, Serves [call, call] {} issues ∧
      (∃ i ∈ issues, i.key = "value") ∧
      (issues.Pairwise fun i j => i.chain = j.chain → i.key ≠ j.key) ∧ ∀ i ∈ issues, i.Fresh := by
  intro call
  have hcalls : ∀ c ∈ [call, call], Request Rat c.merge := by
    intro c hc
    simp only [List.mem_cons, List.not_mem_nil, or_false, or_self] at hc
    rw [hc]
    exact .lists ..
  obtain ⟨-, ⟨issues, hserves⟩, hfresh⟩ := keys_fresh [call, call] hcalls {}
  have hkeys : (call.merge.run (call.enter {})).2.registry.keys [] = ["value"] := by
    decide +kernel
  have hgiven : ∃ i ∈ issues, i.key = "value" := by
    cases hserves with
    | cons h hrest =>
      rcases h.issued.all [] "value" (by simp [hkeys]) with ⟨c, hold⟩ | ⟨i, hi, hkey⟩
      · cases hold
      · exact ⟨i, List.mem_append_left _ hi, hkey⟩
  exact ⟨hcalls, issues, hserves, hgiven, hfresh issues hserves⟩

end Stencil.Merge
