import Stencil.Proofs.Merge.Literal

namespace Stencil.Merge

open Node

structure Keeps (chain : Scope) (ins outs : List Node) : Prop where
  inside : ∀ c, c <+: chain → (∀ r ∈ referencesOfList ins, r.Inside c) →
    ∀ r ∈ referencesOfList outs, r.Inside c
  block : anyBlock ins = true → anyBlock outs = true
  flat : anyBlock outs = false → (∀ r ∈ referencesOfList ins, r.Direct chain) →
    ∀ r ∈ referencesOfList outs, r.Direct chain
  proper : (∀ n ∈ ins, n.Proper) → ∀ n ∈ outs, n.Proper

namespace Keeps

variable {chain : Scope} {ins outs : List Node} {n : Node}

theorem refl (chain : Scope) (ns : List Node) : Keeps chain ns ns :=
  ⟨fun _ _ h => h, fun h => h, fun _ h => h, fun h => h⟩

theorem append {ins' outs' : List Node} (h : Keeps chain ins outs) (h' : Keeps chain ins' outs') :
    Keeps chain (ins ++ ins') (outs ++ outs') where
  inside c hc hin r hr := by
    simp only [referencesOfList_append, List.mem_append] at hin hr
    rcases hr with hr | hr
    · exact h.inside c hc (fun q hq => hin q (.inl hq)) r hr
    · exact h'.inside c hc (fun q hq => hin q (.inr hq)) r hr
  block hb := by
    simp only [anyBlock_append, Bool.or_eq_true] at hb ⊢
    exact hb.imp h.block h'.block
  flat hb hin r hr := by
    simp only [referencesOfList_append, List.mem_append] at hin hr
    rw [anyBlock_append, Bool.or_eq_false_iff] at hb
    rcases hr with hr | hr
    · exact h.flat hb.1 (fun q hq => hin q (.inl hq)) r hr
    · exact h'.flat hb.2 (fun q hq => hin q (.inr hq)) r hr
  proper hin n hn := by
    rcases List.mem_append.mp hn with hn | hn
    · exact h.proper (fun m hm => hin m (List.mem_append_left _ hm)) n hn
    · exact h'.proper (fun m hm => hin m (List.mem_append_right _ hm)) n hn

theorem perm {ins' : List Node} (hp : ins.Perm ins') (h : Keeps chain ins outs) :
    Keeps chain ins' outs := by
  have hrefs : ∀ r ∈ referencesOfList ins, r ∈ referencesOfList ins' := fun r hr => by
    obtain ⟨n, hn, hr⟩ := mem_referencesOfList.mp hr
    exact mem_referencesOfList.mpr ⟨n, hp.subset hn, hr⟩
  exact {
    inside := fun c hc hin => h.inside c hc fun r hr => hin r (hrefs r hr)
    block := fun hb => h.block (by rwa [anyBlock_eq, hp.any_eq, ← anyBlock_eq])
    flat := fun hb hin => h.flat hb fun r hr => hin r (hrefs r hr)
    proper := fun hin => h.proper fun n hn => hin n (hp.subset hn) }

theorem leaf (hins : anyBlock ins = false) (hn : n.Proper)
    (hr : ∀ r ∈ n.references, r ∈ referencesOfList ins ∨ r.Direct chain) : Keeps chain ins [n] where
  inside c hc hin r hmem := by
    simp only [referencesOfList, List.append_nil] at hmem
    rcases hr r hmem with h | h
    · exact hin r h
    · exact h.inside.widen hc
  block hb := by simp [hins] at hb
  flat _ hin r hmem := by
    simp only [referencesOfList, List.append_nil] at hmem
    rcases hr r hmem with h | h
    · exact hin r h
    · exact h
  proper _ := by simpa using hn

theorem member (hn : n ∈ ins) (hins : ∀ m ∈ ins, m ≠ n → m.hasBlock = false) :
    Keeps chain ins [n] where
  inside c _ hin r hr := by
    simp only [referencesOfList, List.append_nil] at hr
    exact hin r (mem_referencesOfList.mpr ⟨n, hn, hr⟩)
  block hb := by
    rw [anyBlock_eq, List.any_eq_true] at hb
    obtain ⟨m, hm, hb⟩ := hb
    by_cases he : m = n
    · simp [anyBlock, ← he, hb]
    · simp [hins m hm he] at hb
  flat _ hin r hr := by
    simp only [referencesOfList, List.append_nil] at hr
    exact hin r (mem_referencesOfList.mpr ⟨n, hn, hr⟩)
  proper hin := by simpa using hin n hn

theorem slot {kind : SlotKind} {r : Reference} (hins : referencesOfList ins = [])
    (hr : r.Direct chain) : Keeps chain ins [.slot kind r] :=
  leaf (anyBlock_of_references_nil ins hins) trivial fun q hq => by
    rw [List.mem_singleton.mp hq]
    exact .inr hr

theorem ofBlock {kind : BlockKind} {r : Reference} {template : Node}
    (h : ∀ c, c <+: chain → (∀ q ∈ referencesOfList ins, q.Inside c) →
      r.Inside c ∧ ∀ q ∈ template.references, q.Inside c)
    (hproper : (∀ n ∈ ins, n.Proper) → template.Proper) :
    Keeps chain ins [.block kind r template] where
  inside c hc hin q hq := by
    obtain ⟨hr, ht⟩ := h c hc hin
    simp only [referencesOfList, references, List.append_nil] at hq
    rcases List.mem_cons.mp hq with rfl | hq
    · exact hr
    · exact ht q hq
  block _ := rfl
  flat hb := by cases hb
  proper hin n hn := by
    rw [List.mem_singleton.mp hn]
    exact hproper hin

theorem inBlock {kind : BlockKind} {r : Reference} {template other merged : Node}
    (hmem : .block kind r template ∈ ins) (hother : ∀ q ∈ other.references, q ∈ referencesOfList ins)
    (hproper : (∀ n ∈ ins, n.Proper) → other.Proper)
    (h : Keeps r [template, other] [merged]) : Keeps chain ins [.block kind r merged] := by
  refine ofBlock (fun c hc hin => ?_) fun hin => ?_
  · have hown : ∀ q ∈ r :: template.references, q.Inside c := fun q hq =>
      hin q (mem_referencesOfList.mpr ⟨_, hmem, hq⟩)
    have hr := hown r (by simp)
    refine ⟨hr, fun q hq => ?_⟩
    obtain ⟨k, rest, rfl⟩ := hr
    apply h.inside c ⟨k :: rest, rfl⟩ _ q (by simpa [referencesOfList] using hq)
    intro p hp
    simp only [referencesOfList, List.append_nil, List.mem_append] at hp
    rcases hp with hp | hp
    · exact hown p (by simp [hp])
    · exact hin p (hother p hp)
  · have htemplate := proper_of_block (hin _ hmem)
    simpa using h.proper (by simp [htemplate, hproper hin])

theorem intoBlock {kind : BlockKind} {r : Reference} {template b merged : Node}
    (h : Keeps r [template, b] [merged]) :
    Keeps chain [.block kind r template, b] [.block kind r merged] := by
  have hmem : Node.block kind r template ∈ [.block kind r template, b] := List.mem_cons_self ..
  apply inBlock hmem _ (fun hin => hin b (by simp)) h
  intro q hq
  simp [referencesOfList, hq]

theorem blocks {kind : BlockKind} {r q : Reference} {template other merged : Node}
    (h : Keeps r [template, other] [merged]) :
    Keeps chain [.block kind r template, .block kind q other] [.block kind r merged] := by
  have hmem : Node.block kind r template ∈ [.block kind r template, .block kind q other] :=
    List.mem_cons_self ..
  apply inBlock hmem _ _ h
  · intro p hp
    simp [referencesOfList, references, hp]
  · intro hin
    exact proper_of_block (hin (.block kind q other) (by simp))

theorem element {tag tag' : Tag} {cs ds ns : List Node} {name : String} {attrs : List Attribute}
    (hattrs : ∀ r ∈ attrs.filterMap Attribute.reference?, r ∈ tag.attrs.filterMap Attribute.reference? ∨
      r ∈ tag'.attrs.filterMap Attribute.reference? ∨ r.Direct chain)
    (hnames : (tag.attrs.map Attribute.name).Nodup → (tag'.attrs.map Attribute.name).Nodup →
      (attrs.map Attribute.name).Nodup)
    (h : Keeps chain (cs ++ ds) ns) :
    Keeps chain [.element tag cs, .element tag' ds] [.element ⟨name, attrs⟩ ns] where
  inside c hc hin r hr := by
    simp only [referencesOfList, references, List.append_nil, List.mem_append] at hin hr
    rcases hr with hr | hr
    · rcases hattrs r hr with ha | ha | ha
      · exact hin r (.inl (.inl ha))
      · exact hin r (.inr (.inl ha))
      · exact ha.inside.widen hc
    · refine h.inside c hc (fun q hq => hin q ?_) r hr
      rw [referencesOfList_append, List.mem_append] at hq
      exact hq.imp .inr .inr
  block hb := by
    simp only [anyBlock, hasBlock, Bool.or_false] at hb ⊢
    exact h.block (by rwa [anyBlock_append])
  flat hb hin r hr := by
    simp only [anyBlock, hasBlock, Bool.or_false] at hb
    simp only [referencesOfList, references, List.append_nil, List.mem_append] at hin hr
    rcases hr with hr | hr
    · rcases hattrs r hr with ha | ha | ha
      · exact hin r (.inl (.inl ha))
      · exact hin r (.inr (.inl ha))
      · exact ha
    · refine h.flat hb (fun q hq => hin q ?_) r hr
      rw [referencesOfList_append, List.mem_append] at hq
      exact hq.imp .inr .inr
  proper hin m hm := by
    obtain ⟨htag, hcs⟩ := hin _ (List.mem_cons_self ..)
    obtain ⟨htag', hds⟩ := hin (.element tag' ds) (by simp)
    rw [List.mem_singleton.mp hm]
    refine ⟨hnames htag htag', properList_iff.mpr (h.proper fun c hc => ?_)⟩
    rcases List.mem_append.mp hc with hc | hc
    · exact properList_iff.mp hcs c hc
    · exact properList_iff.mp hds c hc

theorem first {a b : Node} (hb : b.hasBlock = false) : Keeps chain [a, b] [a] := by
  apply member (by simp)
  intro m hm hne
  simp only [List.mem_cons, List.not_mem_nil, or_false] at hm
  rw [hm.resolve_left hne]
  exact hb

theorem second {a b : Node} (ha : a.hasBlock = false) : Keeps chain [a, b] [b] :=
  (first ha).perm (List.Perm.swap ..)

end Keeps

end Stencil.Merge
