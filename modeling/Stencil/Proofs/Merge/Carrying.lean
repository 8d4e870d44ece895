import Stencil.Proofs.Merge.Moving
import Stencil.Proofs.Node.Own
import Stencil.Proofs.Node.Scoped
import Stencil.Proofs.Registry.Renaming

namespace Stencil

namespace Assoc

variable {κ β : Type} [BEq κ] [LawfulBEq κ]

theorem perm_cons_erase {k : κ} {v : β} {entries : List (κ × β)} (hnodup : (keys entries).Nodup)
    (h : entries.lookup k = some v) : ((k, v) :: erase k entries).Perm entries := by
  induction entries with
  | nil => cases h
  | cons e entries ih =>
    obtain ⟨j, w⟩ := e
    rw [keys_cons, List.nodup_cons] at hnodup
    by_cases hk : k = j
    · subst hk
      rw [List.lookup_cons_self] at h
      cases h
      have hrest : erase k entries = entries := by
        apply List.filter_eq_self.mpr
        intro e he
        have hmem : e.1 ∈ keys entries := List.mem_map_of_mem he
        have hne : k ≠ e.1 := fun heq => hnodup.1 (heq ▸ hmem)
        simp [hne]
      rw [erase, List.filter_cons_of_neg (by simp), ← erase, hrest]
    · rw [lookup_cons_of_ne hk] at h
      rw [erase, List.filter_cons_of_pos (by simp [hk]), ← erase]
      exact (List.Perm.swap _ _ _).trans ((ih hnodup.2 h).cons _)

end Assoc

def Attribute.unlinked : Attribute → Attribute
  | .slot n _ => .slot n []
  | .optional n _ => .optional n []
  | a => a

namespace Node

mutual
def unlinked : Node → Node
  | slot k _ => slot k []
  | block k _ t => block k [] (unlinked t)
  | element t cs => element { t with attrs := t.attrs.map Attribute.unlinked } (unlinkedList cs)
  | n => n

def unlinkedList : List Node → List Node
  | [] => []
  | n :: rest => unlinked n :: unlinkedList rest
end

mutual
theorem unlinked_insertKey (depth : Nat) (key : String) : (n : Node) → (n.insertKey depth key).unlinked = n.unlinked
  | literal .. => rfl
  | slot .. => rfl
  | content => rfl
  | foreign => rfl
  | block _ _ t => by rw [insertKey, unlinked, unlinked, unlinked_insertKey depth key t]
  | element t cs => by
    have hattrs : Attribute.unlinked ∘ Attribute.insertKey depth key = Attribute.unlinked := by
      funext a
      cases a <;> rfl
    rw [insertKey, unlinked, unlinked, List.map_map, hattrs, unlinked_insertKeys depth key cs]

theorem unlinked_insertKeys (depth : Nat) (key : String) : (ns : List Node) →
    unlinkedList (insertKeys depth key ns) = unlinkedList ns
  | [] => rfl
  | n :: ns => by
    rw [insertKeys, unlinkedList, unlinkedList, unlinked_insertKey depth key n, unlinked_insertKeys depth key ns]
end

variable {chain : Scope}

mutual
theorem Scoped.insertKey {more : Scope} (key : String) : (n : Node) → n.Scoped (chain ++ more) →
    (n.insertKey chain.length key).Scoped (chain ++ [key] ++ more)
  | literal .., _ => trivial
  | slot .., h => Reference.Direct.insertKey key h
  | content, _ => trivial
  | foreign, _ => trivial
  | block _ r t, h => by
    obtain ⟨⟨k, rfl⟩, ht⟩ := h
    rw [List.append_assoc] at ht
    have htemplate := Scoped.insertKey key t ht
    rw [Node.insertKey, List.append_assoc chain more, Reference.insertKey_append]
    exact ⟨⟨k, by rw [← List.append_assoc]⟩, htemplate⟩
  | element t cs, h => by
    refine ⟨fun r hr => ?_, ScopedList.insertKeys key cs h.2⟩
    rw [filterMap_insertKey, List.mem_map] at hr
    obtain ⟨q, hq, rfl⟩ := hr
    exact (h.1 q hq).insertKey key

theorem ScopedList.insertKeys {more : Scope} (key : String) : (ns : List Node) → ScopedList (chain ++ more) ns →
    ScopedList (chain ++ [key] ++ more) (insertKeys chain.length key ns)
  | [], _ => trivial
  | n :: ns, h => ⟨Scoped.insertKey key n h.1, ScopedList.insertKeys key ns h.2⟩
end

mutual
theorem Scoped.inside {chain : Scope} : (n : Node) → n.Scoped chain → ∀ r ∈ n.references, r.Inside chain
  | literal .., _ => by simp [references]
  | slot _ r, h => by
    rw [references, List.forall_mem_singleton]
    exact Reference.Direct.inside h
  | content, _ => by simp [references]
  | foreign, _ => by simp [references]
  | block _ r t, h => by
    rw [references, List.forall_mem_cons]
    obtain ⟨⟨k, rfl⟩, ht⟩ := h
    exact ⟨⟨k, [], rfl⟩, fun q hq => (Scoped.inside t ht q hq).widen (List.prefix_append _ _)⟩
  | element t cs, h => by
    rw [references, List.forall_mem_append]
    exact ⟨fun r hr => (h.1 r hr).inside, ScopedList.inside cs h.2⟩

theorem ScopedList.inside {chain : Scope} : (ns : List Node) → ScopedList chain ns →
    ∀ r ∈ referencesOfList ns, r.Inside chain
  | [], _ => by simp [referencesOfList]
  | n :: ns, h => by
    rw [referencesOfList, List.forall_mem_append]
    exact ⟨Scoped.inside n h.1, ScopedList.inside ns h.2⟩
end

mutual
theorem Scoped.own : (n : Node) → n.Scoped chain →
    (∀ r ∈ n.ownReferences, r.Direct chain) ∧ ∀ b ∈ n.ownBlocks, b.2.2.Scoped b.2.1
  | literal .., _ => by simp [ownReferences, ownBlocks]
  | slot _ r, h => by
    have hdirect : r.Direct chain := h
    simpa [ownReferences, ownBlocks] using hdirect
  | content, _ => by simp [ownReferences, ownBlocks]
  | foreign, _ => by simp [ownReferences, ownBlocks]
  | block _ r t, h => by
    have hblock : r.Direct chain ∧ t.Scoped r := h
    simpa [ownReferences, ownBlocks] using hblock
  | element t cs, h => by
    obtain ⟨hrefs, hblocks⟩ := ScopedList.own cs h.2
    rw [ownReferences, List.forall_mem_append]
    exact ⟨⟨h.1, hrefs⟩, hblocks⟩

theorem ScopedList.own : (ns : List Node) → ScopedList chain ns →
    (∀ r ∈ ownReferencesOfList ns, r.Direct chain) ∧ ∀ b ∈ ownBlocksOfList ns, b.2.2.Scoped b.2.1
  | [], _ => by simp [ownReferencesOfList, ownBlocksOfList]
  | n :: ns, h => by
    obtain ⟨hr, hb⟩ := Scoped.own n h.1
    obtain ⟨hrs, hbs⟩ := ScopedList.own ns h.2
    rw [ownReferencesOfList, ownBlocksOfList, List.forall_mem_append, List.forall_mem_append]
    exact ⟨⟨hr, hrs⟩, hb, hbs⟩
end

theorem Scoped.begins {n : Node} (h : n.Scoped chain) {r : Reference} (hr : r ∈ n.references) :
    ∃ k rest, r = chain ++ k :: rest ∧ k ∈ slots [n] := by
  obtain ⟨hown, hblocks⟩ := Scoped.own n h
  have hslot {q : Reference} (hq : q ∈ n.ownReferences) : q.key ∈ slots [n] :=
    List.mem_map_of_mem (List.mem_append_left _ hq)
  rcases own_of_mem_references n hr with hr | ⟨b, hb, hr⟩
  · obtain ⟨k, rfl⟩ := hown r hr
    have hk := hslot hr
    rw [Reference.key_append] at hk
    exact ⟨k, [], rfl, hk⟩
  · have hq := own_of_mem_ownBlocks n hb
    obtain ⟨j, rest, hinside⟩ := Scoped.inside _ (hblocks b hb) r hr
    obtain ⟨k, hk⟩ := hown _ hq
    refine ⟨k, j :: rest, ?_, ?_⟩
    · rw [hinside, hk, List.append_assoc, List.singleton_append]
    · have hkey := hslot hq
      rwa [hk, Reference.key_append] at hkey

theorem Scoped.mem_references_of_slot {n : Node} (h : n.Scoped chain) {k : String} (hk : k ∈ slots [n]) :
    chain ++ [k] ∈ n.references := by
  obtain ⟨r, hr, rfl⟩ := List.mem_map.mp hk
  rw [ownReferencesOfList, ownReferencesOfList, List.append_nil] at hr
  have hdirect := (Scoped.own n h).1 r hr
  rw [← Reference.direct_iff.mp hdirect]
  exact ownReferences_subset n hr

structure WellScoped (chain : Scope) (n : Node) : Prop where
  follows : n.Scoped chain
  normal : ∀ r ∈ n.references, ∀ k ∈ r, Key.Normal k

theorem WellScoped.insertKey {n : Node} {key : String} (h : n.WellScoped chain) (hkey : Key.Normal key) :
    (n.insertKey chain.length key).WellScoped (chain ++ [key]) where
  follows := by
    have hscoped : n.Scoped (chain ++ []) := by rw [List.append_nil]; exact h.follows
    have hmoved := Scoped.insertKey key n hscoped
    rwa [List.append_nil] at hmoved
  normal r hr k hk := by
    rw [references_insertKey, List.mem_map] at hr
    obtain ⟨q, hq, rfl⟩ := hr
    rw [Reference.insertKey, List.append_assoc, List.mem_append, List.singleton_append, List.mem_cons] at hk
    rcases hk with hk | rfl | hk
    · exact h.normal q hq k (List.mem_of_mem_take hk)
    · exact hkey
    · exact h.normal q hq k (List.mem_of_mem_drop hk)

end Node

namespace Merge

open Node Value

variable {chain : Scope} {side : Side} {key : String} {s t : MergeState} {fields moved : Fields}

/-- Of the fields at the beginning those of some keys have been moved, and the others are still there. -/
structure Carried (side : Side) (fields : Fields) (tops : List String) (moved : Fields) (s : MergeState) : Prop where
  perm : (moved ++ s.fields side).Perm fields
  keys : ∀ k, k ∈ Assoc.keys moved ↔ k ∈ Assoc.keys fields ∧ k ∈ tops

theorem Carried.start (side : Side) (s : MergeState) : Carried side (s.fields side) [] [] s :=
  ⟨.refl _, by simp⟩

theorem Carried.nodup {tops : List String} (h : Carried side fields tops moved s)
    (hfields : (Assoc.keys fields).Nodup) : (Assoc.keys (s.fields side)).Nodup := by
  have hall : (Assoc.keys (moved ++ s.fields side)).Nodup := (h.perm.map Prod.fst).nodup_iff.mpr hfields
  rw [Assoc.keys, List.map_append] at hall
  exact (List.nodup_append.mp hall).2.1

theorem Carried.mem_keys {tops : List String} (h : Carried side fields tops moved s) (k : String) :
    k ∈ Assoc.keys fields ↔ k ∈ Assoc.keys moved ∨ k ∈ Assoc.keys (s.fields side) := by
  rw [Assoc.keys, ← (h.perm.map Prod.fst).mem_iff, List.map_append, List.mem_append]
  rfl

theorem Carried.stay {tops : List String} {top : String} (h : Carried side fields tops moved s)
    (htop : top ∈ Assoc.keys fields → top ∈ Assoc.keys moved) : Carried side fields (tops ++ [top]) moved s where
  perm := h.perm
  keys k := by
    rw [List.mem_append, List.mem_singleton, h.keys]
    constructor
    · rintro ⟨hk, hmem⟩
      exact ⟨hk, .inl hmem⟩
    · rintro ⟨hk, hmem | rfl⟩
      · exact ⟨hk, hmem⟩
      · exact (h.keys k).mp (htop hk)

theorem Carried.take {tops : List String} {top : String} {v : Value} (h : Carried side fields tops moved s)
    (hfields : (Assoc.keys fields).Nodup) (hv : (s.fields side).lookup top = some v) :
    Carried side fields (tops ++ [top]) (moved ++ [(top, v)])
      (s.setFields side (Assoc.erase top (s.fields side))) where
  perm := by
    rw [MergeState.fields_setFields, List.append_assoc, List.singleton_append]
    exact ((Assoc.perm_cons_erase (h.nodup hfields) hv).append_left _).trans h.perm
  keys k := by
    have hheld : top ∈ Assoc.keys fields := (h.mem_keys top).mpr (.inr (Assoc.mem_keys_of_lookup hv))
    rw [Assoc.keys, List.map_append, List.mem_append, ← Assoc.keys, h.keys, List.map_singleton, List.mem_singleton,
      List.mem_append, List.mem_singleton]
    constructor
    · rintro (⟨hk, hmem⟩ | rfl)
      · exact ⟨hk, .inl hmem⟩
      · exact ⟨hheld, .inr rfl⟩
    · rintro ⟨hk, hmem | rfl⟩
      · exact .inl ⟨hk, hmem⟩
      · exact .inr rfl

theorem Carried.registry {tops : List String} {registry : Registry} (h : Carried side fields tops moved s) :
    Carried side fields tops moved { s with registry } := by
  have hkept : MergeState.fields { s with registry } side = s.fields side := by cases side <;> rfl
  exact ⟨hkept ▸ h.perm, h.keys⟩

theorem carried_moveReference {tops : List String} {top : String} (key : String) (rest : List String)
    (h : Carried side fields tops moved s) (hfields : (Assoc.keys fields).Nodup) (htop : Key.Normal top) :
    ∃ moved' t, Returns (moveReference side chain.length key moved (chain ++ top :: rest)) s moved' t ∧
      Carried side fields (tops ++ [top]) moved' t := by
  let r : Reference := chain ++ top :: rest
  have hget : r[chain.length]? = some top := by simp [r]
  let u : MergeState :=
    { s with registry := s.registry.copyEntry r.dropLast r.key (Reference.insertKey chain.length key r.dropLast) }
  have hu : Carried side fields tops moved u := h.registry
  change ∃ moved' t, Returns (moveReference side chain.length key moved r) s moved' t ∧ _
  unfold moveReference
  simp only [hget, Reference.split, returns_bind, returns_modify]
  by_cases hhas : Assoc.has top moved = true
  · refine ⟨moved, u, ⟨(), u, rfl, ?_⟩, hu.stay fun _ => Assoc.has_iff.mp hhas⟩
    rw [if_pos hhas]
    exact returns_pure.mpr ⟨rfl, rfl⟩
  · cases hv : (u.fields side).lookup top with
    | none =>
      have hfree : top ∈ Assoc.keys fields → top ∈ Assoc.keys moved := fun hk =>
        ((hu.mem_keys top).mp hk).resolve_right (Assoc.lookup_eq_none_iff.mp hv)
      refine ⟨moved, u, ⟨(), u, rfl, ?_⟩, hu.stay hfree⟩
      rw [if_neg hhas]
      exact returns_bind.mpr ⟨none, u, returns_find?.mpr ⟨by rw [htop, hv], rfl⟩, returns_pure.mpr ⟨rfl, rfl⟩⟩
    | some v =>
      refine ⟨moved ++ [(top, v)], u.setFields side (Assoc.erase top (u.fields side)), ⟨(), u, rfl, ?_⟩,
        hu.take hfields hv⟩
      rw [if_neg hhas]
      refine returns_bind.mpr ⟨some v, u, returns_find?.mpr ⟨by rw [htop, hv], rfl⟩, ?_⟩
      exact returns_bind.mpr ⟨(), _, returns_remove.mpr (by rw [htop]), returns_pure.mpr ⟨rfl, rfl⟩⟩

def topsOf (chain : Scope) (refs : List Reference) : List String :=
  refs.map fun r => r.getD chain.length ""

theorem carried_moveReferences {refs : List Reference} {tops : List String} (key : String)
    (h : Carried side fields tops moved s) (hfields : (Assoc.keys fields).Nodup)
    (hinside : ∀ r ∈ refs, r.Inside chain) (hnormal : ∀ r ∈ refs, ∀ k ∈ r, Key.Normal k) :
    ∃ moved' t, Returns (refs.foldlM (moveReference side chain.length key) moved) s moved' t ∧
      Carried side fields (tops ++ topsOf chain refs) moved' t := by
  induction refs generalizing s tops moved with
  | nil =>
    refine ⟨moved, s, returns_pure.mpr ⟨rfl, rfl⟩, ?_⟩
    rwa [topsOf, List.map_nil, List.append_nil]
  | cons r refs ih =>
    rw [List.forall_mem_cons] at hinside hnormal
    obtain ⟨top, rest, rfl⟩ := hinside.1
    have htop : Key.Normal top := hnormal.1 top (by simp)
    obtain ⟨first, u, hfirst, hu⟩ := carried_moveReference key rest h hfields htop
    obtain ⟨moved', t, hrest, ht⟩ := ih hu hinside.2 hnormal.2
    refine ⟨moved', t, ?_, ?_⟩
    · rw [List.foldlM_cons]
      exact returns_bind.mpr ⟨first, u, hfirst, hrest⟩
    · rw [topsOf, List.map_cons, ← topsOf]
      rw [List.append_assoc] at ht
      simpa using ht

theorem mem_topsOf {n : Node} (h : n.Scoped chain) (k : String) : k ∈ topsOf chain n.references ↔ k ∈ slots [n] := by
  rw [topsOf, List.mem_map]
  constructor
  · rintro ⟨r, hr, rfl⟩
    obtain ⟨top, rest, rfl, hslot⟩ := h.begins hr
    simpa using hslot
  · intro hk
    exact ⟨chain ++ [k], h.mem_references_of_slot hk, by simp⟩

theorem exists_moveInto {n : Node} (side : Side) (key : String) (hn : n.WellScoped chain)
    (hfields : (Assoc.keys (s.fields side)).Nodup) :
    ∃ moved t, Returns (moveInto side chain n key) s (n.insertKey chain.length key, moved) t ∧
      Carried side (s.fields side) (topsOf chain n.references) moved t := by
  unfold moveInto
  split
  · obtain ⟨moved, u, hmove, hu⟩ := carried_moveReferences key (Carried.start side s) hfields
      (Scoped.inside n hn.follows) hn.normal
    have ht : Carried side (s.fields side) (topsOf chain n.references) moved
        { u with reshaped := u.reshaped + 1 } := by
      have hkept := (quiet_reshape u).fields side
      exact ⟨hkept ▸ hu.perm, hu.keys⟩
    refine ⟨moved, _, returns_bind.mpr ⟨moved, u, hmove, ?_⟩, ht⟩
    exact returns_bind.mpr ⟨(), _, returns_reshape.mpr rfl, returns_pure.mpr ⟨rfl, rfl⟩⟩
  · next hno =>
    have hrefs : n.references = [] := by simpa [hasReferences] using hno
    rw [hrefs, insertKey_of_references_nil _ _ n hrefs]
    exact ⟨[], s, returns_pure.mpr ⟨rfl, rfl⟩, Carried.start side s⟩

theorem Carried.at?_eq {tops : List String} {top : String} (h : Carried side fields tops moved s)
    (hfields : (Assoc.keys fields).Nodup) (htop : top ∈ tops) {p : Path} (hp : (keysOf p).head? = some top) :
    (Value.map (Assoc.set key (.map moved) (s.fields side))).at? (.key key :: p) = (Value.map fields).at? p := by
  have hmoved : moved.lookup top = fields.lookup top := by
    cases hv : fields.lookup top with
    | none =>
      rw [Assoc.lookup_eq_none_iff] at hv ⊢
      exact fun hk => hv ((h.keys top).mp hk).1
    | some v =>
      have hk := (h.keys top).mpr ⟨Assoc.mem_keys_of_lookup hv, htop⟩
      obtain ⟨w, hw⟩ := Option.isSome_iff_exists.mp (Assoc.lookup_isSome_iff.mpr hk)
      have hmem := h.perm.subset (List.mem_append_left _ (Assoc.mem_of_lookup hw))
      have hheld := Assoc.lookup_of_mem hfields hmem
      rw [hw, ← hheld, hv]
  have hbelow : (Value.map (Assoc.set key (.map moved) (s.fields side))).at? (.key key :: p) =
      (Value.map moved).at? p := by
    rw [at?, child?, Assoc.lookup_set_self, Option.bind_some]
  rw [hbelow]
  cases p with
  | nil => cases hp
  | cons step p =>
    cases step with
    | item i => rfl
    | key k =>
      cases hp
      rw [at?, at?, child?, child?, hmoved]

/-- Moving a tree into the scope below a new key returns. The tree is the same but for its references, which go on
from the new key as they went on from the chain before. The values that stay and the values that go along are
together those of the scope, and the ones that go along belong to slots of the tree. A reference then leads through the
map of these to what it led to before, whatever positions are taken in the lists on the way. -/
theorem moved_tree_reads (side : Side) {n : Node} (hn : n.WellScoped chain)
    (hfields : (Assoc.keys (s.fields side)).Nodup) (hkey : Key.Normal key) :
    ∃ m moved t, Returns (moveInto side chain n key) s (m, moved) t ∧
      m.WellScoped (chain ++ [key]) ∧ m.unlinked = n.unlinked ∧
      m.references = n.references.map (fun r => chain ++ key :: r.drop chain.length) ∧
      (moved ++ t.fields side).Perm (s.fields side) ∧
      (∀ k, k ∈ Assoc.keys moved ↔ k ∈ Assoc.keys (s.fields side) ∧ k ∈ slots [n]) ∧
      ∀ p : Path, chain ++ keysOf p ∈ n.references →
        (Value.map (Assoc.set key (.map moved) (t.fields side))).at? (.key key :: p) =
          (Value.map (s.fields side)).at? p := by
  obtain ⟨moved, t, hmove, hcarried⟩ := exists_moveInto side key hn hfields
  refine ⟨_, moved, t, hmove, hn.insertKey hkey, unlinked_insertKey _ _ n, ?_, hcarried.perm, fun k => ?_,
    fun p hp => ?_⟩
  · rw [references_insertKey]
    apply List.map_congr_left
    intro r hr
    obtain ⟨k, rest, rfl⟩ := Scoped.inside n hn.follows r hr
    rw [Reference.insertKey_append, List.drop_left, List.append_assoc, List.singleton_append]
  · rw [hcarried.keys, mem_topsOf hn.follows]
  · obtain ⟨top, rest, hr, hslot⟩ := hn.follows.begins hp
    have hhead : (keysOf p).head? = some top := by rw [List.append_cancel_left hr, List.head?_cons]
    exact hcarried.at?_eq hfields ((mem_topsOf hn.follows top).mpr hslot) hhead

def glossary : Node :=
  .element ⟨"section", [.fixed "class" "terms", .slot "id" ["main", "id"]]⟩ [
    .block .conditional ["main", "note"] (.element ⟨"p", []⟩ [.slot .plain ["main", "note", "text"]]),
    .block .loop ["main", "items"] (.element ⟨"li", []⟩ [.slot .plain ["main", "items", "term"]])]

def glossaryFields : Fields :=
  [("title", .text "Terms"), ("note", .map [("text", .text "draft")]),
    ("items", .list [.map [("term", .text "one")], .map [("term", .text "two")]])]

theorem glossary_wellScoped : glossary.WellScoped ["main"] where
  follows := (show ScopedList ["main"] [glossary] by decide).1
  normal := by
    simp only [Key.Normal]
    decide +kernel

theorem moved_tree_reads_glossary : glossary.WellScoped ["main"] ∧ (Assoc.keys glossaryFields).Nodup ∧
    Key.Normal "box" ∧ ∃ m moved t,
      Returns (moveInto .left ["main"] glossary "box") { left := glossaryFields } (m, moved) t ∧
        m.WellScoped ["main", "box"] ∧ m.references = [["main", "box", "id"], ["main", "box", "note"],
          ["main", "box", "note", "text"], ["main", "box", "items"], ["main", "box", "items", "term"]] ∧
        "items" ∈ Assoc.keys moved ∧ "title" ∉ Assoc.keys moved ∧
        (Value.map (Assoc.set "box" (.map moved) t.left)).at?
          [.key "box", .key "items", .item 1, .key "term"] = some (.text "two") := by
  have hfields : (Assoc.keys glossaryFields).Nodup := by decide
  have hkey : Key.Normal "box" := by
    unfold Key.Normal
    decide +kernel
  obtain ⟨m, moved, t, hmove, hm, -, hrefs, -, hkeys, hreads⟩ :=
    moved_tree_reads (s := { left := glossaryFields }) .left glossary_wellScoped hfields hkey
  have hread := hreads [.key "items", .item 1, .key "term"] (by decide)
  refine ⟨glossary_wellScoped, hfields, hkey, m, moved, t, hmove, hm, hrefs, ?_, ?_, hread⟩
  · exact (hkeys "items").mpr ⟨by decide, by decide⟩
  · rw [hkeys]
    decide

end Merge

end Stencil
