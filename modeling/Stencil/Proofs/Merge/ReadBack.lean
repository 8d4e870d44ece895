import Stencil.Proofs.Collection.Fold
import Stencil.Proofs.Merge.Wording
import Stencil.Proofs.Score

/-!
Pages of ordinary elements, no two siblings of one name. A layout of such pages, filled with the values of
a page that was merged into it, is that page again.
-/

namespace Stencil.Merge

open Node

variable {chain : Scope} {around : Around} {side : Side} {old new old' new' page page' : List Node}
  {s t u : MergeState}

structure Renders (old new page : List Node) (fields : Fields) : Prop where
  sheet : SheetList new
  names : (elementNames new).Sublist (elementNames old)
  reads : ReadsBack new page fields

theorem Renders.append {fields : Fields} (h : Renders old new page fields)
    (g : Renders old' new' page' fields) : Renders (old ++ old') (new ++ new') (page ++ page') fields where
  sheet := sheetList_append.mpr ⟨h.sheet, g.sheet⟩
  names := by
    rw [elementNames_append, elementNames_append]
    exact h.names.append g.names
  reads := h.reads.append g.reads

def RendersAll (merge : NodeMerger) : Prop :=
  ∀ chain around a b s n t, a.Sheet → b.Plain → Returns (merge chain around a b) s n t →
    Tells chain [a] [n] (fun f => Renders [a] [n] [b] f ∧ n.isElement = a.isElement) s t

theorem known_element {registry : Registry} {tag : Tag} {cs : List Node} :
    Known registry [.element tag cs] ↔ Known registry (attributeSlots tag.attrs ++ cs) := by
  unfold Known
  rw [referencesOfList_append, referencesOfList_attributeSlots]
  simp [referencesOfList, references]

theorem slots_element (tag : Tag) (cs : List Node) :
    slots [.element tag cs] = slots (attributeSlots tag.attrs ++ cs) := by
  rw [slots, (own_element tag cs).1, slots]

theorem Tells.element {tag tag' : Tag} {cs ds : List Node} {claim : Fields → Prop}
    (h : Tells chain (attributeSlots tag.attrs ++ cs) (attributeSlots tag'.attrs ++ ds) claim s t) :
    Tells chain [.element tag cs] [.element tag' ds] claim s t := by
  intro hp hn hk
  rw [slots_element] at hn
  have h := h (Placed.element_iff.mp hp) hn (known_element.mp hk)
  exact {
    grows := h.grows
    fresh := by
      rw [slots_element, slots_element]
      exact h.fresh
    nodup := slots_element tag' ds ▸ h.nodup
    known := known_element.mpr h.known
    written := slots_element tag' ds ▸ h.written
    frame := slots_element tag' ds ▸ h.frame
    told := slots_element tag' ds ▸ h.told }

theorem readsBack_self {n : Node} {fields : Fields} (h : n.Plain) : ReadsBack [n] [n] fields := by
  unfold ReadsBack
  rw [fillList, Plain.fill fields n h, fillList, List.append_nil]
  exact sameList_refl _ (PlainList.proper_gist [n] ⟨h, trivial⟩)

theorem gistList_blank {k : LiteralKind} {v : String} (hk : k ≠ .cdata)
    (h : k = .text → Text.strip v = "") : gistList [.literal k v] = [] := by
  cases k with
  | text => simp [gistList, gist, h rfl]
  | cdata => exact absurd rfl hk
  | _ => rfl

theorem readsBack_blank {k : LiteralKind} {v : String} {fields : Fields} (hk : k ≠ .cdata)
    (h : k = .text → Text.strip v = "") : gistList (fillList fields [.literal k v]) = [] := by
  have hfill : fillList fields [.literal k v] = [.literal k v] := rfl
  rw [hfill, gistList_blank hk h]

theorem gistList_fill_slot {r : Reference} {v : String} {fields : Fields}
    (h : fields.lookup r.key = some (.text (Text.strip v))) :
    gistList (fillList fields [.slot .plain r]) = gistList [.literal .text v] := by
  simp only [fillList, fill, h, List.append_nil, gistList, gist]
  split
  · rfl
  · next hne => simp [gistList, gist, Text.strip_strip, hne]

theorem readsBack_slot {r : Reference} {v : String} {fields : Fields}
    (h : fields.lookup r.key = some (.text (Text.strip v))) :
    ReadsBack [.slot .plain r] [.literal .text v] fields := by
  unfold ReadsBack
  rw [gistList_fill_slot h]
  exact sameList_refl _ (PlainList.proper_gist [.literal .text v] ⟨nofun, trivial⟩)

theorem known_block {registry : Registry} {kind : BlockKind} {key : String} {template : Node}
    (hkey : key ∈ registry.keys chain)
    (h : ∀ r ∈ template.references, Reference.key r ∈ registry.keys r.dropLast) :
    Known registry [.block kind (chain ++ [key]) template] := by
  intro r hr
  rcases List.mem_cons.mp hr with rfl | hr
  · rwa [Reference.key_append, List.dropLast_concat]
  · exact h r (by simpa [referencesOfList] using hr)

theorem Wrapped.renders_left {n m : Node} (hn : n.Sheet) (helement : n.isElement = true)
    (h : Wrapped chain .left n s m t) : Tells chain [n] [m] (Renders [n] [m] []) s t := by
  cases h with
  | @mk key v u₁ u₂ u₃ _ hkey hmoves _ hown hother =>
    intro hp hnodup hk
    have hin : ∀ r ∈ n.references, r.Inside chain :=
      (hp.within (fun h => h.inside) (List.mem_singleton_self n)).inside
    have hslots : slots [.block .conditional (chain ++ [key]) (n.insertKey chain.length key)] = [key] := by
      rw [slots_block, Reference.key_append]
    have hregistry : t.registry = u₂.registry := hother.registry.trans hown.registry
    have hright : t.right = Assoc.set key .null s.right := by
      have hset : t.right = Assoc.set (Key.normalize key) .null u₃.right := hother.own
      rw [hset, hkey.normal, show u₃.right = u₂.right from hown.other,
        show u₂.right = u₁.right from hmoves.other, show u₁.right = s.right from hkey.fields .right]
    refine Tells.single hslots hright (fun c k hk => ?_) ?_
      (.inr ⟨hkey.unknown, hkey.free .right⟩) fun f hf => ⟨?_, ?_, ?_⟩
    · rw [hregistry]
      exact hmoves.known c k (hkey.grows c k hk)
    · rw [hregistry]
      refine known_block (hmoves.known _ _ hkey.mem_keys) fun r hr => ?_
      rw [references_insertKey, List.mem_map] at hr
      obtain ⟨q, hq, rfl⟩ := hr
      obtain ⟨hlast, hinit⟩ := (hin q hq).split_insertKey key
      rw [hlast, hinit]
      exact hmoves.moved q hq (hkey.grows _ _ (hk q (by simpa [referencesOfList] using hq)))
    · refine ⟨⟨rfl, ?_, Sheet.insertKey key n hin hn, ?_⟩, trivial⟩
      · cases n <;> first | rfl | cases helement
      · rwa [slots_insertKey key hin]
    · exact List.nil_sublist _
    · simp [ReadsBack, fillList, fill, hf, gistList, sameList]

theorem Wrapped.renders_right {n m : Node} (hn : n.Plain) (helement : n.isElement = true)
    (h : Wrapped chain .right n s m t) : Tells chain [] [m] (Renders [] [m] [n]) s t := by
  have hrefs := Plain.references n hn
  cases h with
  | @mk key v u₁ u₂ u₃ _ hkey _ hempty hown hother =>
    obtain ⟨rfl, rfl⟩ := hempty hrefs
    intro _ _ _
    rw [insertKey_of_references_nil _ _ n hrefs]
    have hslots : slots [.block .conditional (chain ++ [key]) n] = [key] := by
      rw [slots_block, Reference.key_append]
    have hregistry : t.registry = u₂.registry := hother.registry.trans hown.registry
    have hright : t.right = Assoc.set key (.bool true) s.right := by
      have hset : u₃.right = Assoc.set (Key.normalize key) (.bool true) u₂.right := hown.own
      rw [show t.right = u₃.right from hother.other, hset, hkey.normal,
        show u₂.right = s.right from hkey.fields .right]
    refine Tells.single hslots hright (fun c k hk => ?_) ?_
      (.inr ⟨hkey.unknown, hkey.free .right⟩) fun f hf => ⟨?_, ?_, ?_⟩
    · rw [hregistry]
      exact hkey.grows c k hk
    · rw [hregistry]
      exact known_block hkey.mem_keys (by simp [hrefs])
    · have hnone : slots [n] = [] := by
        rw [slots, (own_of_referencesOfList_nil [n] (by simp [referencesOfList, hrefs])).1]
        rfl
      exact ⟨⟨rfl, helement, Plain.sheet n hn, by simp [hnone]⟩, trivial⟩
    · exact List.nil_sublist _
    · have hself : ReadsBack [n] [n] [] := readsBack_self hn
      simp only [ReadsBack, fillList, List.append_nil] at hself ⊢
      rw [fill, Reference.key_append, hf]
      exact hself

theorem Unmatched.renders_left {enclosing : Option Tag} {n m : Node} {rest : List Node} {count : Nat}
    (hno : Markdown.allowsBlocks enclosing = false) (hn : n.Sheet)
    (h : Unmatched chain .left enclosing n rest s m count t) :
    count = 1 ∧ Tells chain [n] [m] (Renders [n] [m] []) s t := by
  cases h with
  | literal hblank =>
    refine ⟨rfl, Tells.quiet rfl (.refl _) fun f => ⟨⟨hn, trivial⟩, .refl _, ?_⟩⟩
    rw [ReadsBack, readsBack_blank hn hblank]
    rfl
  | content => exact hn.elim
  | text _ hopen =>
    refine ⟨rfl, Tells.opens hopen hopen.other fun f hf => ⟨⟨rfl, trivial⟩, .refl _, ?_⟩⟩
    simp [ReadsBack, fillList, fill, hf, gistList, sameList]
  | slot hread =>
    cases hn
    refine ⟨rfl, Tells.reads rfl hread fun f hf => ⟨⟨rfl, trivial⟩, .refl _, ?_⟩⟩
    simp [ReadsBack, fillList, fill, hf, gistList, sameList]
  | block hread =>
    have hsheet := hn
    obtain ⟨rfl, -⟩ := hn
    refine ⟨rfl, Tells.reads rfl hread fun f hf => ⟨⟨hsheet, trivial⟩, .refl _, ?_⟩⟩
    simp [ReadsBack, fillList, fill, hf, absent, gistList, sameList]
  | markdown hblock _ => simp [hno] at hblock
  | wrapped _ hwrap => exact ⟨rfl, (Returns.wrapElement hwrap).renders_left hn rfl⟩

theorem Unmatched.renders_right {enclosing : Option Tag} {n m : Node} {rest : List Node} {count : Nat}
    (hno : Markdown.allowsBlocks enclosing = false) (hn : n.Plain)
    (h : Unmatched chain .right enclosing n rest s m count t) :
    count = 1 ∧ Tells chain [] [m] (Renders [] [m] [n]) s t := by
  cases h with
  | literal hblank =>
    exact ⟨rfl, Tells.quiet rfl (.refl _) fun f => ⟨⟨hn, trivial⟩, .refl _, readsBack_self hn⟩⟩
  | content => exact hn.elim
  | text _ hopen =>
    exact ⟨rfl, Tells.opens hopen hopen.own fun f hf => ⟨⟨rfl, trivial⟩, .refl _,
      readsBack_slot (by rwa [Reference.key_append])⟩⟩
  | slot _ => exact hn.elim
  | block _ => exact hn.elim
  | markdown hblock _ => simp [hno] at hblock
  | wrapped _ hwrap => exact ⟨rfl, (Returns.wrapElement hwrap).renders_right hn rfl⟩

variable {α : Type} [Grade α] [Grade.Selective α] {merge : NodeMerger}

theorem Front.renders (hall : RendersAll merge) (hno : Unmarked around) {a b : Node}
    {restA restB : List Node} {taken : Taken} (ha : SheetList (a :: restA))
    (hnames : (elementNames (a :: restA)).Nodup) (hb : PlainList (b :: restB))
    (hnames' : (elementNames (b :: restB)).Nodup)
    (h : Front α merge chain around a b restA restB s taken t) :
    Tells chain ((a :: restA).take taken.left) [taken.node]
      (Renders ((a :: restA).take taken.left) [taken.node] ((b :: restB).take taken.right)) s t := by
  cases h with
  | blocks h => exact (not_returns_mergeBlocks hno.left h).elim
  | runs _ h => exact ((Returns.mergeRuns h).false_of_nodup hnames hnames').elim
  | pair hquiet _ h =>
    obtain ⟨u, hu, hp⟩ := Returns.mergePair h
    cases hp with
    | absorbRight _ _ _ => cases ha.1.1
    | absorbLeft _ _ _ => exact hb.1.elim
    | merged h => exact ((hall _ _ _ _ _ _ _ ha.1 hb.1 h).mono fun _ hf => hf.1).before (hquiet.trans hu)
  | left hquiet _ _ _ h =>
    obtain ⟨rfl, htells⟩ := (Returns.unmatched h).renders_left hno.left ha.1
    exact htells.before hquiet
  | right hquiet _ _ _ h =>
    obtain ⟨rfl, htells⟩ := (Returns.unmatched h).renders_right hno.right hb.1
    exact htells.before hquiet

theorem elementNames_drop {ns : List Node} (h : (elementNames ns).Nodup) (k : Nat) :
    (elementNames (ns.drop k)).Nodup :=
  h.sublist ((List.drop_sublist k ns).filterMap _)

theorem sheetList_drop {ns : List Node} (h : SheetList ns) (k : Nat) : SheetList (ns.drop k) := by
  rw [← List.take_append_drop k ns] at h
  exact (sheetList_append.mp h).2

theorem plainList_drop {ns : List Node} (h : PlainList ns) (k : Nat) : PlainList (ns.drop k) := by
  induction ns generalizing k with
  | nil => simpa using h
  | cons n ns ih =>
    cases k with
    | zero => exact h
    | succ k => exact ih h.2 k

theorem Walk.renders (hall : RendersAll merge) (hno : Unmarked around) {as bs ns : List Node}
    (ha : SheetList as) (hnames : (elementNames as).Nodup) (hb : PlainList bs)
    (hnames' : (elementNames bs).Nodup) (h : Walk α merge chain around as bs s ns t) :
    Tells chain as ns (Renders as ns bs) s t := by
  induction h with
  | done => exact Tells.quiet rfl (.refl _) fun _ => ⟨trivial, .refl _, rfl⟩
  | @both a b restA restB ns taken _ _ _ hf _ ih =>
    have hfront := hf.renders hall hno ha hnames hb hnames'
    have hrest := ih (sheetList_drop ha _) (elementNames_drop hnames _) (plainList_drop hb _)
      (elementNames_drop hnames' _)
    have h := (hfront.append hrest).mono fun f hr => hr.1.append hr.2
    rwa [List.take_append_drop, List.take_append_drop] at h
  | left hn _ ih =>
    obtain ⟨rfl, hfront⟩ := (Returns.unmatched hn).renders_left hno.left ha.1
    have hrest := ih ha.2 (elementNames_drop hnames 1) hb hnames'
    exact (hfront.append hrest).mono fun f hr => hr.1.append hr.2
  | right hn _ ih =>
    obtain ⟨rfl, hfront⟩ := (Returns.unmatched hn).renders_right hno.right hb.1
    have hrest := ih ha hnames hb.2 (elementNames_drop hnames' 1)
    exact (hfront.append hrest).mono fun f hr => hr.1.append hr.2

theorem Returns.mergeSiblings_renders (hall : RendersAll merge) (hno : Unmarked around)
    {as bs ns : List Node} (ha : SheetList as) (hnames : (elementNames as).Nodup) (hb : PlainList bs)
    (hnames' : (elementNames bs).Nodup)
    (h : Returns (Merge.mergeSiblings α merge chain around as bs) s ns t) :
    Tells chain as ns (Renders as ns bs) s t :=
  (Returns.mergeSiblings_walk hno.inline h).renders hall hno ha hnames hb hnames'

theorem readsBack_element {name : String} {tag : Tag} {attrs : List Attribute} {cs ds : List Node}
    {fields : Fields} (hname : name = tag.name) (htag : tag.Ordinary)
    (hattrs : ((attrs.flatMap (Attribute.fill fields)).map Attribute.gist).Perm
      (tag.attrs.map Attribute.gist)) (hcs : ReadsBack cs ds fields) :
    ReadsBack [.element ⟨name, attrs⟩ cs] [.element tag ds] fields := by
  unfold ReadsBack at hcs ⊢
  simp only [fillList, fill, gistList, gist, List.append_nil, sameList, same, Bool.and_true,
    Bool.and_eq_true]
  refine ⟨Tag.same_of_perm hname ?_ hattrs, hcs⟩
  rw [names_gist]
  exact htag.distinct

theorem readsBack_conditional {r : Reference} {template : Node} {page : List Node}
    {fields own : Fields} (h : ReadsBack [template] page own)
    (hv : fields.lookup r.key = some (if own.isEmpty then .bool true else .map own)) :
    ReadsBack [.block .conditional r template] page fields := by
  have hfill : fillList fields [.block .conditional r template] = fillList own [template] := by
    cases own with
    | nil => simp_all [fillList, fill]
    | cons e own => simp_all [fillList, fill]
  rwa [ReadsBack, hfill]

theorem Reads.other_adjusted {key : String} {v : Value} (h : Reads .right key v s u)
    (g : Quiet u t ∨ ∃ x, Reads .left key x u t) :
    t.right = Assoc.set (Key.normalize key) v s.right ∧ t.registry = s.registry := by
  rcases g with g | ⟨x, g⟩
  · exact ⟨g.right.trans h.own, g.registry.trans h.registry⟩
  · exact ⟨g.other.trans h.own, g.registry.trans h.registry⟩

theorem Step.renders (hall : RendersAll merge) {a b n : Node} (ha : a.Sheet) (hb : b.Plain)
    (h : Step α merge chain around s a b n t) :
    Tells chain [a] [n] (fun f => Renders [a] [n] [b] f ∧ n.isElement = a.isElement) s t := by
  cases h with
  | conditionals _ => exact hb.elim
  | @conditionalLeft r template _ m own others u v _ h hread hadjust =>
    -- inside of the conditional the merge starts from empty records, so what it tells holds of the inner record
    obtain ⟨-, helement, hsheet, hnodup⟩ := ha
    obtain ⟨w, hw, hscopes, rfl⟩ := returns_inScope.mp h
    cases hscopes
    intro hp _ hk
    obtain ⟨⟨k, hnormal, rfl⟩, htied⟩ := hp.of_block
    have hinner : Known s.registry [template] := fun q hq =>
      hk q (List.mem_cons_of_mem _ (by simpa [referencesOfList] using hq))
    have htold := hall _ _ _ _ _ _ _ hsheet hb hw (tied_conditional.mp htied) hnodup hinner
    have hread := hread.other_adjusted hadjust
    have hslots : slots [.block .conditional (chain ++ [k]) m] = [k] := by
      rw [slots_block, Reference.key_append]
    rw [Reference.key_append] at hread
    refine Tells.single hslots (hnormal ▸ hread.1) (fun c j hj => ?_) ?_
      (.inl (by rw [slots_block, Reference.key_append]; exact List.mem_singleton_self k)) fun f hf => ?_
    · rw [hread.2]
      exact htold.grows c j hj
    · rw [hread.2]
      refine known_block (htold.grows _ _ ?_) fun q hq => htold.known q (by simpa [referencesOfList] using hq)
      simpa using hk (chain ++ [k]) (List.mem_cons_self ..)
    · obtain ⟨hr, hm⟩ := htold.told w.right fun _ _ => rfl
      rw [helement] at hm
      refine ⟨⟨⟨⟨rfl, hm, hr.sheet.1, htold.nodup⟩, trivial⟩, .refl _, ?_⟩, rfl⟩
      exact readsBack_conditional hr.reads (by rwa [Reference.key_append])
  | conditionalRight _ _ _ => exact hb.elim
  | loops _ _ => exact hb.elim
  | absorbRight _ _ => cases ha.1
  | absorbLeft _ _ => exact hb.elim
  | readRight hvalue hread =>
    cases ha
    cases hvalue with
    | text _ =>
      exact Tells.reads rfl hread fun f hf => ⟨⟨⟨rfl, trivial⟩, .refl _, readsBack_slot hf⟩, rfl⟩
  | readLeft _ _ => exact hb.elim
  | elements hname _ hattrs hns =>
    obtain ⟨hord, hcs, hnames⟩ := ha
    obtain ⟨hord', hfixed, hds, hnames'⟩ := hb
    have htold := Returns.mergeAttributes_tells hord.distinct hord'.distinct
      (references_of_isFixed hfixed) hattrs
    have hno : Unmarked ⟨some _, some _⟩ := ⟨hord.flow, hord'.flow, hord.inline⟩
    have hchildren := Returns.mergeSiblings_renders hall hno hcs hnames hds hnames' hns
    refine (htold.append hchildren).element.mono ?_
    rintro f ⟨hperm, hr⟩
    refine ⟨⟨⟨⟨?_, hr.sheet, hnames.sublist hr.names⟩, trivial⟩, .refl _, ?_⟩, rfl⟩
    · exact ⟨hord.flow, hord.inline, hord.drawing,
        Returns.mergeAttributes_nodup hord.distinct hord'.distinct hattrs⟩
    · exact readsBack_element hname hord' hperm hr.reads
  | drawings hsvg _ _ _ _ _ => exact (ha.1.drawing hsvg).elim
  | texts _ hopen =>
    exact Tells.opens hopen hopen.other fun f hf => ⟨⟨⟨rfl, trivial⟩, .refl _,
      readsBack_slot (by rwa [Reference.key_append])⟩, rfl⟩
  | kept hkept hquiet =>
    cases hkept with
    | @text v w hsame =>
      refine Tells.quiet rfl hquiet fun f => ⟨⟨⟨ha, trivial⟩, .refl _, ?_⟩, rfl⟩
      have hgist : gistList (fillList f [.literal .text v]) = gistList [.literal .text w] := by
        simp only [fillList, fill, List.append_nil, gistList, gist, hsame]
      rw [ReadsBack, hgist]
      exact sameList_refl _ (PlainList.proper_gist [.literal .text w] ⟨hb, trivial⟩)
    | @literal k v w hk =>
      refine Tells.quiet rfl hquiet fun f => ⟨⟨⟨ha, trivial⟩, .refl _, ?_⟩, rfl⟩
      have hpage : gistList [.literal k w] = [] := gistList_blank hb fun h => absurd h hk
      rw [ReadsBack, readsBack_blank ha fun h => absurd h hk, hpage]
      rfl
    | slot => exact hb.elim
    | content => exact hb.elim
    | drawing hsvg _ _ _ => exact (ha.1.drawing hsvg).elim

theorem mergeNode_renders (fuel : Nat) : RendersAll (mergeNode α fuel) := by
  induction fuel with
  | zero =>
    intro chain around a b s n t _ _ h
    simp [mergeNode] at h
  | succ fuel ih =>
    intro chain around a b s n t ha hb h
    exact (Returns.mergeStep h).renders ih ha hb

def PlainPage (page : List Node) : Prop :=
  PlainList page ∧ (elementNames page).Nodup

structure Legible (registry : Registry) (layout : List Node) : Prop where
  placed : Placed Tied [] layout
  sheet : SheetList layout
  names : (elementNames layout).Nodup
  nodup : (slots layout).Nodup
  known : Known registry layout

theorem PlainPage.legible {registry : Registry} {layout : List Node} (h : PlainPage layout) :
    Legible registry layout := by
  have hrefs := PlainList.references layout h.1
  have hslots : slots layout = [] := by rw [slots, (own_of_referencesOfList_nil layout hrefs).1]; rfl
  exact {
    placed := .of_references_nil hrefs
    sheet := PlainList.sheet layout h.1
    names := h.2
    nodup := by simp [hslots]
    known := by simp [Known, hrefs] }

theorem Legible.merged {layout merged : List Node} (hl : Legible s.registry layout)
    (hpage : PlainPage page) (h : Returns (lists α [] {} layout page) s merged t) :
    Legible t.registry merged ∧ ReadsBack merged page t.right := by
  have htold := Returns.mergeSiblings_renders (mergeNode_renders _) unmarked_root hl.sheet hl.names
    hpage.1 hpage.2 h hl.placed hl.nodup hl.known
  have hr := htold.told t.right fun _ _ => rfl
  exact ⟨{
    placed := Returns.lists_tied (PlainList.references page hpage.1) hl.placed h
    sheet := hr.sheet
    names := hl.names.sublist hr.names
    nodup := htold.nodup
    known := htold.known }, hr.reads⟩

/-- Whatever pages were folded into a layout: when one more is merged into it, the page is what the layout
becomes with the values that the page has been given. -/
theorem merged_reads_back {first layout merged : List Node} {pages : List (List Node)}
    {left right : Fields} (hfirst : PlainPage first) (hpages : ∀ p ∈ pages, PlainPage p)
    (hpage : PlainPage page)
    (hfold : Returns (pages.foldlM (Collection.mergeLayout α) first) s layout u)
    (hmerge : Returns (inScope (lists α [] {} layout page)) u (merged, left, right) t) :
    sameList (gistList (fillList right merged)) (gistList page) = true := by
  have hkept : Collection.KeptBy α Legible pages := fun hl hm _ _ h => (hl.merged (hpages _ hm) h).1
  have hlegible := hkept.layouts hfirst.legible hfold
  obtain ⟨v, hv, hscopes, -⟩ := returns_inScope.mp hmerge
  cases hscopes
  exact (Legible.merged (s := { u with left := [], right := [] }) hlegible hpage hv).2

theorem merged_reads_back_title : ∃ layout u merged left right t,
    Returns ([[.element ⟨"title", []⟩ [.text "Bob"]]].foldlM (Collection.mergeLayout Float)
      [.element ⟨"title", []⟩ [.text "Ada"], .element ⟨"em", [.fixed "class" "old"]⟩ [.text "1"]])
      {} layout u ∧
    Returns (inScope (lists Float [] {} layout
      [.element ⟨"title", []⟩ [.text "Cy"], .element ⟨"em", [.fixed "class" "new"]⟩ [.text "2"]]))
      u (merged, left, right) t ∧
    right.map Prod.fst = ["title", "em_old"] ∧
    sameList (gistList (fillList right merged)) (gistList
      [.element ⟨"title", []⟩ [.text "Cy"], .element ⟨"em", [.fixed "class" "new"]⟩ [.text "2"]]) =
        true := by
  have title (v : String) : (Node.element ⟨"title", []⟩ [.text v]).Plain :=
    ⟨⟨by decide, by decide, by decide, by simp⟩, by simp, ⟨nofun, trivial⟩,
      by simp [elementNames, tag?]⟩
  have em (c v : String) : (Node.element ⟨"em", [.fixed "class" c]⟩ [.text v]).Plain :=
    ⟨⟨show Markdown.flowParents.contains "em" = false by decide,
      show Markdown.inlineParents.contains "em" = false by decide, show "em" ≠ "svg" by decide,
      List.nodup_singleton _⟩, by simp [Attribute.isFixed], ⟨nofun, trivial⟩,
      by simp [elementNames, tag?]⟩
  have both (v c w : String) : PlainPage
      [.element ⟨"title", []⟩ [.text v], .element ⟨"em", [.fixed "class" c]⟩ [.text w]] :=
    ⟨⟨title v, em c w, trivial⟩, by simp [elementNames, tag?]⟩
  obtain ⟨⟨merged, left, right⟩, t, h, hkeys⟩ := exists_returns (s := {}) (y := ["title", "em_old"])
    (f := fun x : List Node × Fields × Fields => x.2.2.map Prod.fst)
    (m := [[.element ⟨"title", []⟩ [.text "Bob"]]].foldlM (Collection.mergeLayout Float)
      [.element ⟨"title", []⟩ [.text "Ada"], .element ⟨"em", [.fixed "class" "old"]⟩ [.text "1"]] >>=
      fun layout => inScope (lists Float [] {} layout
        [.element ⟨"title", []⟩ [.text "Cy"], .element ⟨"em", [.fixed "class" "new"]⟩ [.text "2"]]))
    (by decide +kernel)
  obtain ⟨layout, u, hfold, hmerge⟩ := returns_bind.mp h
  refine ⟨layout, u, merged, left, right, t, hfold, hmerge, hkeys, ?_⟩
  refine merged_reads_back (both ..) (fun p hp => ?_) (both ..) hfold hmerge
  rw [List.mem_singleton.mp hp]
  exact ⟨⟨title _, trivial⟩, by simp [elementNames, tag?]⟩

end Stencil.Merge
