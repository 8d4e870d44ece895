import Stencil.Proofs.Merge.Backing

namespace Stencil.Merge

open Node

variable {chain : Scope} {around : Around} {side : Side} {s t : MergeState}

def Restores (old new : List Node) (record fields : Fields) : Prop :=
  SuitsList record old → trimmedList (fillList fields new) = trimmedList (fillList record old)

theorem Restores.append {old new old' new' : List Node} {record fields : Fields} (h : Restores old new record fields)
    (g : Restores old' new' record fields) : Restores (old ++ old') (new ++ new') record fields := by
  intro hsuits
  obtain ⟨hhere, hthere⟩ := suitsList_append.mp hsuits
  rw [fillList_append, fillList_append, trimmedList_append, trimmedList_append, h hhere, g hthere]

theorem restores_same {ns : List Node} {record fields : Fields}
    (h : ∀ k ∈ slots ns, fields.lookup k = record.lookup k) : Restores ns ns record fields := by
  intro _
  rw [fillList_congr h]

theorem restores_element {tag : Tag} {name : String} {attrs : List Attribute} {cs ds : List Node}
    {record fields : Fields} (hname : name = tag.name) (hattrs : Refills tag.attrs attrs record fields)
    (hcs : Restores cs ds record fields) : Restores [.element tag cs] [.element ⟨name, attrs⟩ ds] record fields := by
  rintro ⟨⟨hsuits, hbelow⟩, -⟩
  simp only [fillList, fill, List.append_nil, trimmedList, trimmed, hname, hattrs hsuits, hcs hbelow]

theorem restores_conditional {r : Reference} {template template' : Node} {record fields : Fields}
    (hsame : fields.lookup r.key = record.lookup r.key)
    (h : ∀ own : Fields, (∀ k, k ∈ Assoc.keys own ↔ k ∈ slots [template]) →
      Restores [template] [template'] own own) :
    Restores [.block .conditional r template] [.block .conditional r template'] record fields := by
  -- hidden, shown without a record, or shown with one
  rintro ⟨hnull | ⟨htrue, hnone⟩ | ⟨own, hmap, hkeys, hsuits⟩, -⟩
  · rw [fillList_block_null hnull, fillList_block_null (hsame.trans hnull)]
  · rw [fillList_block_true htrue, fillList_block_true (hsame.trans htrue)]
    have hown : ownReferencesOfList [template] = [] := List.map_eq_nil_iff.mp hnone
    exact h [] (by simp [hnone]) (suitsList_of_own_nil [template] hown)
  · rw [fillList_block_map hmap, fillList_block_map (hsame.trans hmap)]
    exact h own hkeys ⟨hsuits, trivial⟩

theorem Returns.wrapElement_reshapes {tag : Tag} {n m : Node} (hrefs : n.references ≠ [])
    (h : Returns (Merge.wrapElement chain side tag n) s m t) : s.reshaped < t.reshaped := by
  simp only [Merge.wrapElement, returns_bind, returns_put, returns_debug, returns_pure] at h
  obtain ⟨key, u, hkey, ⟨template, inner⟩, v, hmove, _, _, rfl, _, _, rfl, x, _, hx, _, _, rfl, rfl, rfl⟩ := h
  obtain ⟨-, rfl⟩ := returns_ofExcept.mp hx
  have hhas : n.hasReferences = true := by simpa [Node.hasReferences] using hrefs
  rw [Merge.moveInto, if_pos hhas] at hmove
  simp only [returns_bind, returns_reshape, returns_pure] at hmove
  obtain ⟨fs, w, hmoved, _, _, rfl, -, rfl⟩ := hmove
  have hreserved := (Returns.newKey hkey).steady
  have hmoves := (Returns.moveReferences hmoved).steady
  simp only [MergeState.addLine, MergeState.addEvent, MergeState.reshaped_setFields]
  omega

theorem Returns.mergeConditional_own {merge : NodeMerger} {r : Reference} {template b n : Node}
    (h : Returns (Merge.mergeConditional merge around .left r template b) s n t) :
    ∃ m u, n = .block .conditional r m ∧
      Returns (merge r around template b) { s with left := [], right := [] } m u ∧ t.reshaped = u.reshaped ∧
      (u.left = [] ∧ t.left = s.left ∨ ∃ own, t.left = Assoc.set (Key.normalize r.key) (.map own) s.left) := by
  simp only [Merge.mergeConditional, returns_bind] at h
  obtain ⟨⟨m, own, others⟩, v, hm, _, w, hw, h⟩ := h
  obtain ⟨u, hu, hscopes, rfl⟩ := returns_inScope.mp hm
  cases hscopes
  rw [returns_put] at hw
  subst hw
  split at h
  · simp only [returns_bind, returns_find?, returns_put, returns_pure] at h
    obtain ⟨_, _, ⟨-, rfl⟩, _, _, rfl, rfl, rfl⟩ := h
    exact ⟨m, u, rfl, hu, rfl, .inr ⟨_, rfl⟩⟩
  · next hempty =>
    rw [returns_pure] at h
    obtain ⟨rfl, rfl⟩ := h
    exact ⟨m, u, rfl, hu, rfl, .inl ⟨by simpa using hempty, rfl⟩⟩

theorem Wrapped.opens {n m : Node} (hrefs : n.references = []) (h : Wrapped chain side n s m t) :
    ∃ key, m = .block .conditional (chain ++ [key]) n ∧ Opens chain side key (.bool true) .null s t := by
  cases h with
  | @mk key _ _ _ _ _ hkey _ hempty hown hother =>
    obtain ⟨rfl, rfl⟩ := hempty hrefs
    rw [insertKey_of_references_nil _ _ n hrefs]
    exact ⟨key, rfl, hkey.opens hown hother⟩

theorem Unmatched.backs_left {enclosing : Option Tag} {n m : Node} {rest : List Node} {count : Nat}
    (hno : Markdown.allowsBlocks enclosing = false) (hn : n.Sheet)
    (h : Unmatched chain .left enclosing n rest s m count t) :
    Backs chain [n] [m] (Restores [n] [m]) s t := by
  cases h with
  | literal _ => exact Backs.unwritten rfl (Nat.le_refl _) fun _ _ => restores_same
  | content => exact hn.elim
  | text _ hopen =>
    refine Backs.opens hopen hopen.own (by simp) fun record fields _ hf _ => ?_
    exact trimmedList_fill_slot (by rwa [Reference.key_append])
  | slot hread => exact Backs.unwritten hread.other hread.steady fun _ _ => restores_same
  | block hread => exact Backs.unwritten hread.other hread.steady fun _ _ => restores_same
  | markdown hblock _ => simp [hno] at hblock
  | @wrapped tag cs _ _ _ _ _ hwrap =>
    -- references inside of the element would move one scope down, and that is counted
    by_cases hrefs : (Node.element tag cs).references = []
    · obtain ⟨key, rfl, hopen⟩ := (Returns.wrapElement hwrap).opens hrefs
      refine Backs.opens hopen hopen.own (by simp) fun record fields _ hf _ => ?_
      have hslots : slots [Node.element tag cs] = [] := by
        rw [slots, (own_of_referencesOfList_nil [_] (by simp [referencesOfList, hrefs])).1]
        rfl
      rw [fillList_block_true (by rwa [Reference.key_append]), fillList_congr (by simp [hslots])]
    · have hmoved := Returns.wrapElement_reshapes hrefs hwrap
      exact fun _ _ _ => ⟨hmoved.le, fun hs => (hmoved.ne' hs).elim, fun hs => (hmoved.ne' hs).elim⟩

theorem Unmatched.backs_right {enclosing : Option Tag} {n m : Node} {rest : List Node} {count : Nat}
    (hno : Markdown.allowsBlocks enclosing = false) (hn : n.Plain)
    (h : Unmatched chain .right enclosing n rest s m count t) :
    Backs chain [] [m] (Restores [] [m]) s t := by
  cases h with
  | @literal k v _ _ hblank =>
    refine Backs.unwritten rfl (Nat.le_refl _) fun record fields _ _ => ?_
    cases k with
    | text => simp [fillList, fill, trimmedList, trimmed, hblank rfl]
    | cdata => exact (hn rfl).elim
    | _ => rfl
  | content => exact hn.elim
  | text _ hopen =>
    refine Backs.opens hopen hopen.other (by simp) fun record fields _ hf _ => ?_
    rw [fillList_slot_empty (by rwa [Reference.key_append])]
    rfl
  | slot _ => exact hn.elim
  | block _ => exact hn.elim
  | markdown hblock _ => simp [hno] at hblock
  | wrapped _ hwrap =>
    obtain ⟨key, rfl, hopen⟩ := (Returns.wrapElement hwrap).opens (Plain.references _ hn)
    refine Backs.opens hopen hopen.other (by simp) fun record fields _ hf _ => ?_
    rw [fillList_block_null (by rwa [Reference.key_append])]
    rfl

def BacksAll (merge : NodeMerger) : Prop :=
  ∀ chain around a b s n t, a.Sheet → b.Plain → Returns (merge chain around a b) s n t →
    Backs chain [a] [n] (Restores [a] [n]) s t

variable {α : Type} [Grade α] [Grade.Selective α] {merge : NodeMerger}

theorem Front.backs (hall : BacksAll merge) (hno : Unmarked around) {a b : Node} {restA restB : List Node}
    {taken : Taken} (ha : SheetList (a :: restA)) (hnames : (elementNames (a :: restA)).Nodup)
    (hb : PlainList (b :: restB)) (hnames' : (elementNames (b :: restB)).Nodup)
    (h : Front α merge chain around a b restA restB s taken t) :
    Backs chain ((a :: restA).take taken.left) [taken.node] (Restores ((a :: restA).take taken.left) [taken.node])
      s t := by
  cases h with
  | blocks h => exact (not_returns_mergeBlocks hno.left h).elim
  | runs _ h => exact ((Returns.mergeRuns h).false_of_nodup hnames hnames').elim
  | pair hquiet _ h =>
    obtain ⟨u, hu, hp⟩ := Returns.mergePair h
    cases hp with
    | absorbRight _ _ _ => cases ha.1.1
    | absorbLeft _ _ _ => exact hb.1.elim
    | merged h => exact (hall _ _ _ _ _ _ _ ha.1 hb.1 h).before (hquiet.trans hu)
  | left hquiet _ _ _ h =>
    have h := Returns.unmatched h
    obtain ⟨rfl, -⟩ := h.renders_left hno.left ha.1
    exact (h.backs_left hno.left ha.1).before hquiet
  | right hquiet _ _ _ h => exact ((Returns.unmatched h).backs_right hno.right hb.1).before hquiet

theorem Walk.backs (hrender : RendersAll merge) (hall : BacksAll merge) (hno : Unmarked around)
    {as bs ns : List Node} (ha : SheetList as) (hnames : (elementNames as).Nodup) (hb : PlainList bs)
    (hnames' : (elementNames bs).Nodup) (h : Walk α merge chain around as bs s ns t) :
    Backs chain as ns (Restores as ns) s t := by
  induction h with
  | done => exact Backs.unwritten rfl (Nat.le_refl _) fun _ _ _ _ => rfl
  | @both a b restA restB ns taken _ _ _ hf hw ih =>
    have ha' := sheetList_drop ha taken.left
    have hdrop := elementNames_drop hnames taken.left
    have hb' := plainList_drop hb taken.right
    have hdrop' := elementNames_drop hnames' taken.right
    have h := ((hf.backs hall hno ha hnames hb hnames').append (ih ha' hdrop hb' hdrop')
      (hf.renders hrender hno ha hnames hb hnames') (hw.renders hrender hno ha' hdrop hb' hdrop')).mono
        fun _ _ hr => hr.1.append hr.2
    rwa [List.take_append_drop] at h
  | left hn hw ih =>
    have hn := Returns.unmatched hn
    obtain ⟨rfl, hfront⟩ := hn.renders_left hno.left ha.1
    have hdrop := elementNames_drop hnames 1
    exact ((hn.backs_left hno.left ha.1).append (ih ha.2 hdrop hb hnames') hfront
      (hw.renders hrender hno ha.2 hdrop hb hnames')).mono fun _ _ hr => hr.1.append hr.2
  | right hn hw ih =>
    have hn := Returns.unmatched hn
    obtain ⟨rfl, hfront⟩ := hn.renders_right hno.right hb.1
    have hdrop' := elementNames_drop hnames' 1
    exact ((hn.backs_right hno.right hb.1).append (ih ha hnames hb.2 hdrop') hfront
      (hw.renders hrender hno ha hnames hb.2 hdrop')).mono fun _ _ hr => hr.1.append hr.2

theorem Returns.mergeSiblings_backs (hrender : RendersAll merge) (hall : BacksAll merge) (hno : Unmarked around)
    {as bs ns : List Node} (ha : SheetList as) (hnames : (elementNames as).Nodup) (hb : PlainList bs)
    (hnames' : (elementNames bs).Nodup) (h : Returns (Merge.mergeSiblings α merge chain around as bs) s ns t) :
    Backs chain as ns (Restores as ns) s t :=
  (Returns.mergeSiblings_walk hno.inline h).backs hrender hall hno ha hnames hb hnames'

omit [Grade.Selective α] in
theorem Returns.mergeConditional_backs (hall : BacksAll merge) {r : Reference} {template b n : Node}
    (ha : (Node.block .conditional r template).Sheet) (hb : b.Plain)
    (h : Returns (Merge.mergeConditional merge around .left r template b) s n t) :
    Backs chain [.block .conditional r template] [n] (Restores [.block .conditional r template] [n]) s t := by
  obtain ⟨-, -, hsheet, hnodup⟩ := ha
  obtain ⟨m, u, rfl, hm, hreshaped, hown⟩ := Returns.mergeConditional_own h
  intro hp _ hk
  obtain ⟨⟨k, hnormal, rfl⟩, htied⟩ := hp.of_block
  rw [Reference.key_append, hnormal] at hown
  have hknown : Known s.registry [template] := fun q hq =>
    hk q (List.mem_cons_of_mem _ (by simpa [referencesOfList] using hq))
  have hinner := hall _ _ _ _ _ _ _ hsheet hb hm (tied_conditional.mp htied) hnodup hknown
  have hsteady : s.reshaped ≤ u.reshaped := hinner.steady
  refine ⟨hreshaped ▸ hsteady, fun _ j hj => ?_, fun hs hmaps record fields hrecord _ => ?_⟩
  · rw [slots_block, Reference.key_append, List.mem_singleton] at hj
    rcases hown with ⟨-, hleft⟩ | ⟨own, hleft⟩
    · rw [hleft]
    · rw [hleft, Assoc.lookup_set_of_ne hj]
  -- with a value on the inside the conditional holds a map, and then nothing is claimed
  · simp only [slots_block, Reference.key_append, List.mem_singleton, forall_eq] at hmaps hrecord
    rcases hown with ⟨hempty, -⟩ | ⟨own, hleft⟩
    · refine restores_conditional (by rwa [Reference.key_append]) fun own hkeys => ?_
      refine hinner.backed (hreshaped.symm.trans hs) (by simp [hempty]) own own (fun _ _ => rfl) fun j _ hno => ?_
      rw [hempty, List.lookup_nil, Assoc.lookup_eq_none_iff, hkeys]
      exact hno
    · exact (hmaps own (by rw [hleft, Assoc.lookup_set_self])).elim

theorem Step.backs (hrender : RendersAll merge) (hall : BacksAll merge) {a b n : Node} (ha : a.Sheet)
    (hblock : ∀ kind r template, a ≠ .block kind r template) (hb : b.Plain)
    (h : Step α merge chain around s a b n t) : Backs chain [a] [n] (Restores [a] [n]) s t := by
  cases h with
  | readRight _ hread => exact Backs.unwritten hread.other hread.steady fun _ _ => restores_same
  | texts _ hopen =>
    refine Backs.opens hopen hopen.own (by simp) fun record fields _ hf _ => ?_
    exact trimmedList_fill_slot (by rwa [Reference.key_append])
  | kept _ hquiet => exact Backs.unwritten hquiet.left hquiet.steady fun _ _ => restores_same
  | elements hname _ hattrs hns =>
    obtain ⟨hord, hcs, hnames⟩ := ha
    obtain ⟨hord', hfixed, hds, hnames'⟩ := hb
    have hfixed := references_of_isFixed hfixed
    have hno : Unmarked ⟨some _, some _⟩ := ⟨hord.flow, hord'.flow, hord.inline⟩
    have htold := Returns.mergeAttributes_tells hord.distinct hord'.distinct hfixed hattrs
    have hchildren := Returns.mergeSiblings_renders hrender hno hcs hnames hds hnames' hns
    have hback := (Returns.mergeAttributes_backs hfixed hattrs).append
      (Returns.mergeSiblings_backs hrender hall hno hcs hnames hds hnames' hns) htold hchildren
    exact hback.element.mono fun _ _ hr => restores_element rfl hr.1 hr.2
  | drawings hsvg => exact (ha.1.drawing hsvg).elim
  | conditionals => exact hb.elim
  | conditionalLeft => exact (hblock _ _ _ rfl).elim
  | conditionalRight => exact hb.elim
  | loops => exact hb.elim
  | absorbRight => exact (hblock _ _ _ rfl).elim
  | absorbLeft => exact hb.elim
  | readLeft => exact hb.elim

theorem mergeNode_backs (fuel : Nat) : BacksAll (mergeNode α fuel) := by
  induction fuel with
  | zero =>
    intro chain around a b s n t _ _ h
    simp [mergeNode] at h
  | succ fuel ih =>
    intro chain around a b s n t ha hb h
    cases a with
    | block kind r template =>
      have hkind := ha.1
      subst hkind
      cases b with
      | literal => exact Returns.mergeConditional_backs ih ha hb h
      | element => exact Returns.mergeConditional_backs ih ha hb h
      | _ => exact hb.elim
    | _ => exact (Returns.mergeStep h).backs (mergeNode_renders fuel) ih ha (by simp) hb

/-- Whatever pages were folded into a layout: when one more is merged into it and nothing has to move, a record that
fills the layout, completed with what the layout held for the new slots, fills the new layout to the same page. -/
theorem merged_restores {first page layout merged : List Node} {pages : List (List Node)} {u : MergeState}
    {held values record : Fields} (hfirst : PlainPage first) (hpages : ∀ p ∈ pages, PlainPage p)
    (hpage : PlainPage page) (hfold : Returns (pages.foldlM (Collection.mergeLayout α) first) s layout u)
    (hmerge : Returns (inScope (lists α [] {} layout page)) u (merged, held, values) t)
    (hreshaped : t.reshaped = u.reshaped) (hmaps : (held.any fun e => e.2.isMap) = false)
    (hkeys : ∀ k, k ∈ Assoc.keys record ↔ k ∈ slots layout) (hsuits : SuitsList record layout) :
    trimmedList (fillList (mergeFields record held) merged) = trimmedList (fillList record layout) := by
  have hkept : Collection.KeptBy α Legible pages := fun hl hm _ _ h => (hl.merged (hpages _ hm) h).1
  have hlegible := hkept.layouts hfirst.legible hfold
  obtain ⟨v, hv, hscopes, rfl⟩ := returns_inScope.mp hmerge
  cases hscopes
  have hback := Returns.mergeSiblings_backs (mergeNode_renders _) (mergeNode_backs _) unmarked_root hlegible.sheet
    hlegible.names hpage.1 hpage.2 hv hlegible.placed hlegible.nodup hlegible.known
  have hmaps : ∀ e ∈ v.left, e.2.isMap = false := by simpa using hmaps
  -- the record has all old slots, so the merge of the two adds just what the layout held for the new ones
  refine hback.backed hreshaped (fun k _ own hown => ?_) record _ (fun k hk => ?_) (fun k _ hno => ?_) hsuits
  · obtain ⟨before, after, hheld, -⟩ := List.lookup_eq_some_iff.mp hown
    cases hmaps (k, .map own) (by simp [hheld])
  · rw [lookup_mergeFields hmaps]
    obtain ⟨value, hvalue⟩ := Option.isSome_iff_exists.mp (Assoc.lookup_isSome_iff.mpr ((hkeys k).mpr hk))
    rw [hvalue, Option.some_or]
  · rw [lookup_mergeFields hmaps, Assoc.lookup_eq_none_iff.mpr (mt (hkeys k).mp hno), Option.none_or]

theorem merged_restores_text : ∃ u merged held values t,
    Returns ([[.text "Bob"]].foldlM (Collection.mergeLayout Float) [.text "Ada"]) {} [.slot .plain ["value"]] u ∧
    Returns (inScope (lists Float [] {} [.slot .plain ["value"]] [.text "Cy", .element ⟨"q", []⟩ [.text "new"]])) u
      (merged, held, values) t ∧
    t.reshaped = u.reshaped ∧ (held.any fun e => e.2.isMap) = false ∧ Assoc.keys held = ["q"] ∧
    trimmedList (fillList (mergeFields [("value", .text "Bob")] held) merged) =
      trimmedList (fillList [("value", .text "Bob")] [.slot .plain ["value"]]) := by
  obtain ⟨⟨layout, u, ⟨merged, held, values⟩, t⟩, _, h, hfacts⟩ := exists_returns (s := {}) (y := true)
    (f := fun x => decide (x.1.length = 1 ∧ singleSlot? .plain x.1 = some ["value"] ∧
      MergeState.reshaped x.2.2.2 = MergeState.reshaped x.2.1 ∧
      (x.2.2.1.2.1.any fun e => e.2.isMap) = false ∧ Assoc.keys x.2.2.1.2.1 = ["q"]))
    (m := do
      let layout ← [[.text "Bob"]].foldlM (Collection.mergeLayout Float) [.text "Ada"]
      let u ← get
      let x ← inScope (lists Float [] {} layout [.text "Cy", .element ⟨"q", []⟩ [.text "new"]])
      let t ← get
      return (layout, u, x, t))
    (by decide +kernel)
  simp only [returns_bind, returns_get, returns_pure] at h
  obtain ⟨_, u, hfold, _, _, ⟨rfl, rfl⟩, _, t, hmerge, _, _, ⟨rfl, rfl⟩, he, -⟩ := h
  cases he
  obtain ⟨hlength, hslot, hreshaped, hmaps, hheld⟩ := of_decide_eq_true hfacts
  obtain ⟨n, rfl⟩ := List.length_eq_one_iff.mp hlength
  obtain rfl : Node.slot .plain ["value"] = n := List.mem_singleton.mp (singleSlot_mem hslot).1
  have htext (v : String) : (Node.text v).Plain := show LiteralKind.text ≠ .cdata by decide
  have hquote : (Node.element ⟨"q", []⟩ [.text "new"]).Plain :=
    ⟨⟨by decide, by decide, by decide, by simp⟩, by simp, ⟨htext _, trivial⟩, by simp [elementNames, tag?]⟩
  have hearlier (v : String) : PlainPage [.text v] := ⟨⟨htext v, trivial⟩, by simp [elementNames, tag?]⟩
  have hpage : PlainPage [.text "Cy", .element ⟨"q", []⟩ [.text "new"]] :=
    ⟨⟨htext _, hquote, trivial⟩, by simp [elementNames, tag?]⟩
  refine ⟨u, merged, held, values, t, hfold, hmerge, hreshaped, hmaps, hheld, ?_⟩
  exact merged_restores (hearlier _) (fun p hp => List.mem_singleton.mp hp ▸ hearlier _) hpage hfold hmerge hreshaped hmaps
    (by simp [Reference.key]) ⟨⟨"Bob", rfl⟩, trivial⟩

end Stencil.Merge
