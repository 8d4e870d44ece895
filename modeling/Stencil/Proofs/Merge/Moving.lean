import Stencil.Merge.Siblings
import Stencil.Proofs.Merge.Change
import Stencil.Proofs.Merge.Extract
import Stencil.Proofs.Node.Scope
import Stencil.Proofs.Registry

namespace Stencil.Merge

variable {chain : Scope} {around : Around} {side : Side} {key : String} {depth : Nat}
  {s t u : MergeState}

theorem Reserves.mem_keys (h : Reserves chain key s t) : key ∈ t.registry.keys chain := by
  obtain ⟨_, _, _, hregistry⟩ := h.registry
  rw [hregistry, Registry.mem_keys_record]
  exact .inl ⟨rfl, rfl⟩

theorem Reserves.grows (h : Reserves chain key s t) :
    ∀ c, ∀ k ∈ s.registry.keys c, k ∈ t.registry.keys c := by
  obtain ⟨_, _, _, hregistry⟩ := h.registry
  intro c k hk
  rw [hregistry, Registry.mem_keys_record]
  exact .inr hk

structure Moves (side : Side) (depth : Nat) (key : String) (refs : List Reference)
    (s t : MergeState) : Prop where
  long : ∀ r ∈ refs, depth < r.length
  other : t.fields side.other = s.fields side.other
  subset : ∀ k ∈ Assoc.keys (t.fields side), k ∈ Assoc.keys (s.fields side)
  kept : ∀ k ∈ Assoc.keys (s.fields side), (∀ r ∈ refs, Key.normalize (r.getD depth "") ≠ k) →
    k ∈ Assoc.keys (t.fields side)
  known : ∀ c, ∀ k ∈ s.registry.keys c, k ∈ t.registry.keys c
  moved : ∀ r ∈ refs, Reference.key r ∈ s.registry.keys r.dropLast →
    Reference.key r ∈ t.registry.keys (Reference.insertKey depth key r.dropLast)
  steady : s.reshaped ≤ t.reshaped

theorem Moves.refl (side : Side) (depth : Nat) (key : String) (s : MergeState) :
    Moves side depth key [] s s :=
  ⟨by simp, rfl, fun _ h => h, fun _ h _ => h, fun _ _ h => h, by simp, Nat.le_refl _⟩

theorem Moves.append {refs refs' : List Reference} (h : Moves side depth key refs s u)
    (g : Moves side depth key refs' u t) : Moves side depth key (refs ++ refs') s t where
  long r hr := (List.mem_append.mp hr).elim (h.long r) (g.long r)
  other := g.other.trans h.other
  subset k hk := h.subset k (g.subset k hk)
  kept k hk hr := g.kept k (h.kept k hk fun r hm => hr r (List.mem_append_left _ hm)) fun r hm =>
    hr r (List.mem_append_right _ hm)
  known c k hk := g.known c k (h.known c k hk)
  moved r hr hk := by
    rcases List.mem_append.mp hr with hr | hr
    · exact g.known _ _ (h.moved r hr hk)
    · exact g.moved r hr (h.known _ _ hk)
  steady := Nat.le_trans h.steady g.steady

theorem Moves.quiet {refs : List Reference} (h : Moves side depth key refs s u) (g : Quiet u t) :
    Moves side depth key refs s t where
  long := h.long
  other := (g.fields _).trans h.other
  subset := g.fields side ▸ h.subset
  kept := g.fields side ▸ h.kept
  known := g.registry ▸ h.known
  moved := g.registry ▸ h.moved
  steady := Nat.le_trans h.steady g.steady

theorem Returns.moveReference {moved fs : Fields} {r : Reference}
    (h : Returns (moveReference side depth key moved r) s fs t) :
    Moves side depth key [r] s t := by
  unfold Merge.moveReference at h
  simp only [Reference.split, returns_bind, returns_modify] at h
  obtain ⟨_, u, rfl, h⟩ := h
  split at h
  · simp at h
  · next top htop =>
    obtain ⟨hlong, rfl⟩ := List.getElem?_eq_some_iff.mp htop
    have hlookup : r.getD depth "" = r[depth] := by rw [List.getD_eq_getElem?_getD, htop, Option.getD_some]
    let registry := s.registry.copyEntry r.dropLast r.key (Reference.insertKey depth key r.dropLast)
    -- the entry is copied in any case, but a value is moved only if there is one
    have copied : Moves side depth key [r] s { s with registry } := {
      long := by simpa using hlong
      other := by cases side <;> rfl
      subset := by cases side <;> exact fun _ hk => hk
      kept := by cases side <;> exact fun _ hk _ => hk
      known := fun c k hk => Registry.mem_keys_copyEntry.mpr (.inr hk)
      moved := fun q hq hk => by
        rw [List.mem_singleton.mp hq] at hk ⊢
        exact Registry.mem_keys_copyEntry.mpr (.inl ⟨rfl, rfl, hk⟩)
      steady := Nat.le_refl _ }
    split at h
    · rw [returns_pure] at h
      rw [h.2]
      exact copied
    · simp only [returns_bind, returns_find?] at h
      obtain ⟨_, _, ⟨rfl, rfl⟩, h⟩ := h
      split at h
      · rw [returns_pure] at h
        rw [h.2]
        exact copied
      · simp only [returns_bind, returns_remove, returns_pure] at h
        obtain ⟨_, _, rfl, -, rfl⟩ := h
        refine ⟨copied.long, ?_, ?_, ?_, ?_, ?_, ?_⟩
        · rw [MergeState.fields_other_setFields]
          exact copied.other
        · intro k hk
          rw [MergeState.fields_setFields, Assoc.mem_keys_erase] at hk
          exact copied.subset k hk.2
        · intro k hk hr
          rw [MergeState.fields_setFields, Assoc.mem_keys_erase]
          exact ⟨fun he => hr r (by simp) (hlookup ▸ he.symm), copied.kept k hk hr⟩
        · rw [MergeState.registry_setFields]
          exact copied.known
        · rw [MergeState.registry_setFields]
          exact copied.moved
        · cases side <;> exact copied.steady

theorem Returns.moveReferences {refs : List Reference} {moved fs : Fields}
    (h : Returns (refs.foldlM (Merge.moveReference side depth key) moved) s fs t) :
    Moves side depth key refs s t := by
  induction refs generalizing s moved with
  | nil =>
    rw [List.foldlM_nil, returns_pure] at h
    rw [h.2]
    exact .refl ..
  | cons r refs ih =>
    rw [List.foldlM_cons, returns_bind] at h
    obtain ⟨fs', u, hr, h⟩ := h
    exact (Returns.moveReference hr).append (ih h)

theorem Returns.moveInto {n m : Node} {moved : Fields}
    (h : Returns (moveInto side chain n key) s (m, moved) t) :
    m = n.insertKey chain.length key ∧ Moves side chain.length key n.references s t ∧
      (n.references = [] → moved = [] ∧ t = s) := by
  unfold Merge.moveInto at h
  split at h
  · next hrefs =>
    simp only [returns_bind, returns_reshape, returns_pure] at h
    obtain ⟨fs, u, hmove, _, _, rfl, hm, rfl⟩ := h
    cases hm
    refine ⟨rfl, (Returns.moveReferences hmove).quiet (quiet_reshape _), fun hno => ?_⟩
    simp [Node.hasReferences, hno] at hrefs
  · next hno =>
    rw [returns_pure] at h
    obtain ⟨hm, rfl⟩ := h
    cases hm
    have hrefs : n.references = [] := by simpa [Node.hasReferences] using hno
    rw [hrefs, Node.insertKey_of_references_nil _ _ n hrefs]
    exact ⟨rfl, .refl .., fun _ => ⟨rfl, rfl⟩⟩

theorem Returns.moveAll {ns : List Node} {moved : List (Node × Fields)}
    (h : Returns (moveAll side chain key ns) s moved t) :
    moved.map Prod.fst = Node.insertKeys chain.length key ns ∧
      Moves side chain.length key (Node.referencesOfList ns) s t := by
  induction ns generalizing s moved with
  | nil =>
    rw [Merge.moveAll, returns_pure] at h
    obtain ⟨rfl, rfl⟩ := h
    exact ⟨rfl, .refl ..⟩
  | cons n ns ih =>
    simp only [Merge.moveAll, returns_bind, returns_pure] at h
    obtain ⟨⟨m, fs⟩, u, hn, others, _, hns, rfl, rfl⟩ := h
    obtain ⟨hm, hmove, -⟩ := Returns.moveInto hn
    obtain ⟨hms, hmoves⟩ := ih hns
    exact ⟨by rw [List.map_cons, hms, hm, Node.insertKeys], hmove.append hmoves⟩

inductive Wrapped (chain : Scope) (side : Side) (n : Node) (s : MergeState) :
    Node → MergeState → Prop
  | mk {key : String} {v : Value} {u₁ u₂ u₃ t : MergeState} : Reserves chain key s u₁ →
    Moves side chain.length key n.references u₁ u₂ →
    (n.references = [] → v = .bool true ∧ u₂ = u₁) → Reads side key v u₂ u₃ →
    Reads side.other key .null u₃ t →
    Wrapped chain side n s (.block .conditional (chain ++ [key]) (n.insertKey chain.length key)) t

theorem Returns.wrapElement {tag : Tag} {n m : Node}
    (h : Returns (wrapElement chain side tag n) s m t) : Wrapped chain side n s m t := by
  simp only [Merge.wrapElement, returns_bind, returns_put, returns_debug, returns_pure] at h
  obtain ⟨key, u, hkey, ⟨template, inner⟩, v, hmove, _, _, rfl, _, _, rfl, x, _, hx, _, _, rfl, rfl,
    rfl⟩ := h
  obtain ⟨-, rfl⟩ := returns_ofExcept.mp hx
  obtain ⟨rfl, hmoves, hinner⟩ := Returns.moveInto hmove
  have hkey := Returns.newKey hkey
  rw [hkey.reference]
  refine .mk hkey hmoves (fun hno => ?_) (.put ..) ((Reads.put ..).quiet (quiet_addLine ..))
  obtain ⟨rfl, rfl⟩ := hinner hno
  exact ⟨rfl, rfl⟩

inductive Looped (merge : NodeMerger) (chain : Scope) (around : Around) (as bs : List Node)
    (s : MergeState) : Node → MergeState → Prop
  | mk {key : String} {template : Node} {records : List Fields} {x y : Value} {elements : List Node}
    {u₁ u₂ u₃ u₄ u₅ t : MergeState} : Reserves chain key s u₁ →
    Moves .left chain.length key (Node.referencesOfList as) u₁ u₂ →
    Moves .right chain.length key (Node.referencesOfList bs) u₂ u₃ →
    elements = Node.insertKeys chain.length key (as ++ bs) →
    Returns (extract Node.same (fun t e => merge (chain ++ [key]) around t e)
      (elements.headD .content) elements) u₃ (template, records) u₄ →
    Reads .left key x u₄ u₅ → Reads .right key y u₅ t →
    Looped merge chain around as bs s (.block .loop (chain ++ [key]) template) t

theorem Returns.buildLoop {merge : NodeMerger} {as bs : List Node} {n : Node}
    (h : Returns (buildLoop merge chain around as bs) s n t) :
    Looped merge chain around as bs s n t := by
  simp only [Merge.buildLoop, returns_bind, returns_put, returns_debug, returns_pure] at h
  obtain ⟨key, _, hkey, left, _, hleft, right, _, hright, ⟨template, records⟩, _, hextract, _, _, rfl,
    _, _, rfl, _, _, rfl, rfl, rfl⟩ := h
  have hkey := Returns.newKey hkey
  obtain ⟨hl, hleft⟩ := Returns.moveAll hleft
  obtain ⟨hr, hright⟩ := Returns.moveAll hright
  rw [hkey.reference] at hextract ⊢
  refine .mk hkey hleft hright ?_ hextract (.put ..) ((Reads.put ..).quiet (quiet_addLine ..))
  rw [List.map_append, hl, hr, Node.insertKeys_append]

inductive Absorbed (merge : NodeMerger) (around : Around) (side : Side) (r : Reference)
    (template : Node) (elements : List Node) (s : MergeState) : Node → MergeState → Prop
  | mk {grown : Node} {records : List Fields} {v : Value} {u t : MergeState} :
    Returns (extract Node.same (fun t e => merge r around t e) template elements) s
      (grown, records) u →
    Reads side r.key v u t → Absorbed merge around side r template elements s (.block .loop r grown) t

theorem Returns.absorb {merge : NodeMerger} {r : Reference} {template n : Node}
    {elements : List Node} (h : Returns (absorb merge around side r template elements) s n t) :
    Absorbed merge around side r template elements s n t := by
  simp only [Merge.absorb, returns_bind] at h
  obtain ⟨⟨grown, records⟩, u, hextract, h⟩ := h
  split at h
  · simp only [returns_bind, returns_reshape, returns_put, returns_pure] at h
    obtain ⟨_, _, rfl, _, _, rfl, rfl, rfl⟩ := h
    refine .mk hextract (v := .list (records.map Value.map)) ?_
    have hread := Reads.put side r.key (.list (records.map Value.map))
      { u with reshaped := u.reshaped + 1 }
    have hq := quiet_reshape u
    exact ⟨hread.own.trans (by rw [hq.fields]), hread.other.trans (hq.fields _), hread.registry,
      Nat.le_trans hq.steady hread.steady⟩
  · simp only [returns_put, returns_bind, returns_pure] at h
    obtain ⟨_, _, rfl, rfl, rfl⟩ := h
    exact .mk hextract (.put ..)

end Stencil.Merge
