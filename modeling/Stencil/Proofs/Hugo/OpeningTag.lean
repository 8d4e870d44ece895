import Stencil.Proofs.Hugo.Reading
import Stencil.Proofs.Merge.Wording
import Stencil.Proofs.Rendering

/-!
The attributes that a page gets back. Two elements of one name are merged, the layout is written as a template,
and the template runs on the values that were found on each side. An attribute is lost if and only if its value
is empty and the other element lacks it, as `with` takes an empty text for none.
-/

namespace Stencil

namespace Merge

variable {s t u : MergeState}

abbrev Sources := Side → Option Attribute

def sources (left right : Option Attribute) : Sources
  | .left => left
  | .right => right

inductive Held (t : MergeState) (p : Sources) : Attribute → Prop
  | same {n v : String} : p .left = some (.fixed n v) →
    (∀ side, ∃ w, p side = some (.fixed n w) ∧ (Attribute.fixed n w).gist = (Attribute.fixed n v).gist) →
    Held t p (.fixed n v)
  | differ {n key : String} : Key.Normal key →
    (∀ side, ∃ v, p side = some (.fixed n v) ∧ (t.fields side).lookup key = some (.text v)) →
    Held t p (.slot n [key])
  | lonely {n v key : String} {side : Side} : Key.Normal key → p side = some (.fixed n v) →
    p side.other = none → (t.fields side).lookup key = some (.text v) →
    (t.fields side.other).lookup key = some .null → Held t p (.optional n [key])

def Extends (s t : MergeState) : Prop :=
  ∀ side key v, (s.fields side).lookup key = some v → (t.fields side).lookup key = some v

theorem Extends.refl (s : MergeState) : Extends s s :=
  fun _ _ _ h => h

theorem Extends.trans (h : Extends s t) (g : Extends t u) : Extends s u :=
  fun side key v hv => g side key v (h side key v hv)

theorem Held.mono {p : Sources} {c : Attribute} (h : Extends s t) (hc : Held s p c) : Held t p c := by
  cases hc with
  | same hleft hsame => exact .same hleft hsame
  | differ hk hall =>
    apply Held.differ hk
    intro side
    obtain ⟨v, hv, hlookup⟩ := hall side
    exact ⟨v, hv, h side _ _ hlookup⟩
  | lonely hk hv hnone hown hother => exact .lonely hk hv hnone (h _ _ _ hown) (h _ _ _ hother)

section Opens

variable {chain : Scope} {side : Side} {key : String} {v w : Value}

theorem Opens.extends (h : Opens chain side key v w s t) : Extends s t := by
  intro any k x hx
  have hne : k ≠ key := fun he => h.free any (he ▸ Assoc.mem_keys_of_lookup hx)
  have hown : (t.fields side).lookup k = (s.fields side).lookup k := by
    rw [h.own, Assoc.lookup_set_of_ne hne]
  have hother : (t.fields side.other).lookup k = (s.fields side.other).lookup k := by
    rw [h.other, Assoc.lookup_set_of_ne hne]
  have hsame : (t.fields any).lookup k = (s.fields any).lookup k :=
    Side.cases (P := fun any => (t.fields any).lookup k = (s.fields any).lookup k) hown hother any
  rw [hsame, hx]

theorem Opens.lookup_own (h : Opens chain side key v w s t) : (t.fields side).lookup key = some v := by
  rw [h.own, Assoc.lookup_set_self]

theorem Opens.lookup_other (h : Opens chain side key v w s t) : (t.fields side.other).lookup key = some w := by
  rw [h.other, Assoc.lookup_set_self]

end Opens

theorem Lonely.held {side : Side} {a c : Attribute} (ha : a.isFixed = true) (h : Lonely [] side a s c t)
    {p : Sources} (hown : p side = some a) (hother : p side.other = none) : Extends s t ∧ Held t p c := by
  cases h with
  | fixed hopen => exact ⟨hopen.extends, .lonely hopen.normal hown hother hopen.lookup_own hopen.lookup_other⟩
  | known hr _ => cases a <;> simp [Attribute.reference?, Attribute.isFixed] at hr ha

theorem Paired.held {a b c : Attribute} (ha : a.isFixed = true) (hb : b.isFixed = true) (hname : b.name = a.name)
    (h : Paired [] a b s c t) : Extends s t ∧ Held t (sources (some a) (some b)) c := by
  cases h with
  | known hr _ _ _ => cases a <;> simp [Attribute.reference?, Attribute.isFixed] at hr ha
  | readRight hr _ => cases a <;> simp [Attribute.reference?, Attribute.isFixed] at hr ha
  | readLeft hr _ => cases b <;> simp [Attribute.reference?, Attribute.isFixed] at hr hb
  | same hsame =>
    cases hname
    refine ⟨.refl _, .same rfl fun side => ?_⟩
    cases side with
    | left => exact ⟨_, rfl, rfl⟩
    | right => exact ⟨_, rfl, (gist_of_sameAttributeValue hsame).symm⟩
  | differ _ hopen =>
    cases hname
    refine ⟨hopen.extends, .differ hopen.normal fun side => ?_⟩
    cases side with
    | left => exact ⟨_, rfl, hopen.lookup_own⟩
    | right => exact ⟨_, rfl, hopen.lookup_other⟩

theorem Matched.held {other : Tag} {a c : Attribute} (ha : a.isFixed = true)
    (hother : ∀ b ∈ other.attrs, b.isFixed = true) (h : Matched [] other a s c t) :
    Extends s t ∧ Held t (sources (some a) (other.attr? a.name)) c := by
  cases h with
  | lonely hb h => exact h.held ha rfl hb
  | paired hb h =>
    obtain ⟨hmem, hname⟩ := attr?_eq_some hb
    rw [hb]
    exact h.held ha (hother _ hmem) hname

theorem Each.held {step : Attribute → MergeState → Attribute → MergeState → Prop} {p : Attribute → Sources}
    {as cs : List Attribute} (h : Each step as s cs t)
    (hstep : ∀ a ∈ as, ∀ s c t, step a s c t → Extends s t ∧ Held t (p a) c) :
    Extends s t ∧ List.Forall₂ (Held t) (as.map p) cs := by
  induction h with
  | nil => exact ⟨.refl _, .nil⟩
  | cons ha _ ih =>
    obtain ⟨hfirst, hheld⟩ := hstep _ List.mem_cons_self _ _ _ ha
    obtain ⟨hrest, hall⟩ := ih fun a hm => hstep a (List.mem_cons_of_mem _ hm)
    exact ⟨hfirst.trans hrest, .cons (hheld.mono hrest) hall⟩

theorem attr?_eq_none_iff {tag : Tag} {name : String} :
    tag.attr? name = none ↔ name ∉ tag.attrs.map Attribute.name := by
  refine ⟨attr?_eq_none, fun h => ?_⟩
  cases hf : tag.attr? name with
  | none => rfl
  | some a =>
    obtain ⟨hmem, hname⟩ := attr?_eq_some hf
    exact absurd (List.mem_map.mpr ⟨a, hmem, hname⟩) h

theorem exists_held {ps : List Sources} {cs : List Attribute} (h : List.Forall₂ (Held t) ps cs) :
    ∀ c ∈ cs, ∃ p ∈ ps, Held t p c := by
  induction h with
  | nil => simp
  | cons hc _ ih =>
    intro d hd
    rcases List.mem_cons.mp hd with rfl | hd
    · exact ⟨_, List.mem_cons_self, hc⟩
    · obtain ⟨p, hp, hpd⟩ := ih d hd
      exact ⟨p, List.mem_cons_of_mem _ hp, hpd⟩

theorem Held.not_foreign {p : Sources} (h : Held t p .foreign) : False := by
  cases h

theorem Held.reference {p : Sources} {c : Attribute} (h : Held t p c) :
    ∀ r ∈ c.reference?, ∃ key, r = [key] ∧ Key.Normal key := by
  intro r hr
  cases h with
  | same _ _ => cases hr
  | differ hk _ =>
    cases hr
    exact ⟨_, rfl, hk⟩
  | lonely hk _ _ _ _ =>
    cases hr
    exact ⟨_, rfl, hk⟩

theorem Returns.mergeAttributes_held {name : String} {attrs : Side → List Attribute} {cs : List Attribute}
    (hfixed : ∀ side, ∀ a ∈ attrs side, a.isFixed = true)
    (hnames : ∀ side, ((attrs side).map Attribute.name).Nodup)
    (h : Returns (Merge.mergeAttributes [] ⟨name, attrs .left⟩ ⟨name, attrs .right⟩) s cs t) :
    ∃ ps : List Sources, List.Forall₂ (Held t) ps cs ∧
      (∀ side, (ps.filterMap fun p => p side).Perm (attrs side)) ∧
      ∀ p ∈ ps, ∀ side a, p side = some a →
        (p side.other = none ↔ a.name ∉ (attrs side.other).map Attribute.name) := by
  obtain ⟨left, right, u, rfl, hleft, hright⟩ := Returns.mergeAttributes h
  obtain ⟨-, hleft⟩ := hleft.held (p := fun a => sources (some a) (Tag.attr? ⟨name, attrs .right⟩ a.name))
    fun a ha s c t hm => hm.held (hfixed .left a ha) (hfixed .right)
  obtain ⟨hext, hright⟩ := hright.held (p := fun b => sources none (some b))
    fun b hb s c t hm => hm.held (hfixed .right b (mem_missingIn hb).1) rfl rfl
  -- those of the first element come first, with their partners, then the lonely ones of the second
  refine ⟨_, List.rel_append (hleft.imp fun _ _ hc => hc.mono hext) hright, ?_, ?_⟩
  · let owner : Tag := ⟨name, attrs .left⟩
    let other : Tag := ⟨name, attrs .right⟩
    have hperm : (owner.attrs.filterMap (fun a => other.attr? a.name) ++ missingIn owner other.attrs).Perm
        other.attrs := perm_of_missingIn (hnames .left) (hnames .right)
    rintro (_ | _)
    · simp [List.filterMap_map, Function.comp_def, sources]
    · simpa [List.filterMap_map, Function.comp_def, sources] using hperm
  · intro p hp side a ha
    rcases List.mem_append.mp hp with hp | hp
    · obtain ⟨b, hb, rfl⟩ := List.mem_map.mp hp
      cases side with
      | left =>
        cases ha
        exact attr?_eq_none_iff
      | right =>
        have hname : a.name = b.name := (attr?_eq_some ha).2
        exact iff_of_false (Option.some_ne_none b) (not_not.mpr (List.mem_map.mpr ⟨b, hb, hname.symm⟩))
    · obtain ⟨b, hb, rfl⟩ := List.mem_map.mp hp
      cases side with
      | left => cases ha
      | right =>
        cases ha
        exact iff_of_true rfl (mem_missingIn hb).2

theorem exists_returns_state {β γ : Type} {m : Merge β} {f : β → MergeState → γ} {y : γ}
    (h : (match m.run s with
      | (.ok x, t) => some (f x t)
      | _ => none) = some y) : ∃ x t, Returns m s x t ∧ f x t = y := by
  unfold Returns
  generalize m.run s = run at h ⊢
  obtain ⟨_ | x, t⟩ := run
  · cases h
  · exact ⟨x, t, rfl, Option.some.inj h⟩

theorem Returns.mergeSiblings_nil {α : Type} [Grade α] {merge : NodeMerger} {chain : Scope} {around : Around}
    {ns : List Node} (h : Returns (Merge.mergeSiblings α merge chain around [] []) s ns t) :
    ns = [] ∧ t = s := by
  rcases Returns.mergeSiblings h with h | ⟨u, hu, h⟩
  · simp [mergeInline?, singleSlot?, Markdown.isInlineTree, Markdown.containsElement] at h
  · cases h
    exact ⟨rfl, Returns.mergeInline_none hu⟩

end Merge

theorem Text.isParamLetter_toLower {c : Char} (h : Key.isSafe c = true) : isParamLetter c.toLower = true := by
  have hc := Key.isSafe_ascii h
  have hlow : Key.isSafe c = true → c.toLower.toNat < 128 ∧
      (c.toLower.isLower || c.toLower.isDigit || c.toLower == '_') = true :=
    forall_ascii (P := fun c => Key.isSafe c = true → c.toLower.toNat < 128 ∧
      (c.toLower.isLower || c.toLower.isDigit || c.toLower == '_') = true) (by decide +kernel) hc
  rw [isParamLetter_ascii (hlow h).1]
  exact (hlow h).2

namespace Hugo

open Node

def pageParams (fields : Fields) : Fields :=
  fields.map fun e => (Text.lower e.1, e.2)

def shown (params : Fields) : Attribute → List Attribute
  | .slot n r => [.fixed n (textOf (params.lookup (formatParam r)))]
  | .optional n r =>
    if isTruthy (params.lookup (formatParam r)) then [.fixed n (textOf (params.lookup (formatParam r)))] else []
  | a => [a]

theorem formatParam_safe {key : String} (h : ∀ c ∈ key.toList, Key.isSafe c = true) :
    formatParam [key] = Text.lower key := by
  rw [← String.toList_inj, Text.toList_lower, Text.lowerWithin_of_isSafe h]
  exact toList_formatParam [] h

theorem lookup_pageParams {fields : Fields} {key : String} {v : Value}
    (hkeys : ((Assoc.keys fields).map Text.lower).Nodup) (hkey : ∀ c ∈ key.toList, Key.isSafe c = true)
    (h : fields.lookup key = some v) : (pageParams fields).lookup (formatParam [key]) = some v := by
  have hinj : ∀ j ∈ Assoc.keys fields, ∀ k ∈ Assoc.keys fields, Text.lower j = Text.lower k → j = k :=
    List.inj_on_of_nodup_map hkeys
  have hiff := Assoc.lookup_map_iff (g := fun _ (v : Value) => v) hinj (i := Text.lower key) (w := v)
  rw [formatParam_safe hkey]
  exact hiff.mpr ⟨key, v, h, rfl, rfl⟩

/-- An attribute is lost if it is empty and the other element lacks it. -/
def Survives (others : List Attribute) (a : Attribute) : Prop :=
  a = .fixed a.name "" → a.name ∈ others.map Attribute.name

instance (others : List Attribute) : DecidablePred (Survives others) :=
  fun _ => inferInstanceAs (Decidable (_ → _))

theorem shown_of_held {t : MergeState} {p : Merge.Sources} {c : Attribute} {side : Side}
    {others : List Attribute} (hkeys : ((Assoc.keys (t.fields side)).map Text.lower).Nodup)
    (hnames : ∀ a, p side = some a → (p side.other = none ↔ a.name ∉ others.map Attribute.name))
    (h : Merge.Held t p c) :
    (shown (pageParams (t.fields side)) c).map Attribute.gist =
      ((p side).toList.filter fun a => Survives others a).map Attribute.gist := by
  have hboth {a b : Attribute} (ha : p side = some a) (hb : p side.other = some b) : Survives others a := by
    intro _
    by_contra hno
    rw [(hnames a ha).mpr hno] at hb
    cases hb
  cases h with
  | same _ hall =>
    obtain ⟨w, hw, hgist⟩ := hall side
    obtain ⟨w', hw', -⟩ := hall side.other
    simp [shown, hw, hboth hw hw', hgist]
  | differ hk hall =>
    obtain ⟨v, hv, hlookup⟩ := hall side
    obtain ⟨w, hw, -⟩ := hall side.other
    simp [shown, hv, hboth hv hw, lookup_pageParams hkeys hk.clean.1 hlookup, textOf]
  | @lonely n v key own hk hv hnone hown hother =>
    obtain rfl | rfl : side = own ∨ side = own.other := by
      cases side <;> cases own <;> simp [Side.other]
    · have hno := (hnames _ hv).mp hnone
      by_cases hempty : v = ""
      · subst hempty
        have hlost : ¬Survives others (.fixed n "") := fun h => hno (h rfl)
        simp [shown, hv, hlost, lookup_pageParams hkeys hk.clean.1 hown, isTruthy]
      · have hstays : Survives others (.fixed n v) := by
          intro h
          cases h
          exact absurd rfl hempty
        simp [shown, hv, hstays, lookup_pageParams hkeys hk.clean.1 hown, isTruthy, hempty, textOf]
    · simp [shown, hnone, lookup_pageParams hkeys hk.clean.1 hother, isTruthy]

theorem shown_all {t : MergeState} {ps : List Merge.Sources} {cs : List Attribute} {side : Side}
    {others : List Attribute} (hkeys : ((Assoc.keys (t.fields side)).map Text.lower).Nodup)
    (hnames : ∀ p ∈ ps, ∀ a, p side = some a → (p side.other = none ↔ a.name ∉ others.map Attribute.name))
    (h : List.Forall₂ (Merge.Held t) ps cs) :
    (cs.flatMap (shown (pageParams (t.fields side)))).map Attribute.gist =
      ((ps.filterMap fun p => p side).filter fun a => Survives others a).map Attribute.gist := by
  induction h with
  | nil => rfl
  | @cons p c ps cs hc _ ih =>
    have hfirst := shown_of_held hkeys (hnames p List.mem_cons_self) hc
    have hrest := ih fun q hq => hnames q (List.mem_cons_of_mem _ hq)
    have hsources : (p :: ps).filterMap (fun p => p side) = (p side).toList ++ ps.filterMap fun p => p side := by
      cases hp : p side <;> simp [hp]
    rw [List.flatMap_cons, List.map_append, hfirst, hrest, hsources, List.filter_append, List.map_append]

theorem perm_shown_iff {t : MergeState} {ps : List Merge.Sources} {cs attrs : List Attribute} {side : Side}
    {others : List Attribute} (hkeys : ((Assoc.keys (t.fields side)).map Text.lower).Nodup)
    (hperm : (ps.filterMap fun p => p side).Perm attrs)
    (hnames : ∀ p ∈ ps, ∀ a, p side = some a → (p side.other = none ↔ a.name ∉ others.map Attribute.name))
    (h : List.Forall₂ (Merge.Held t) ps cs) :
    ((cs.flatMap (shown (pageParams (t.fields side)))).map Attribute.gist).Perm (attrs.map Attribute.gist) ↔
      ∀ a ∈ attrs, Survives others a := by
  have hkept := (hperm.filter fun a => decide (Survives others a)).map Attribute.gist
  rw [shown_all hkeys hnames h]
  constructor
  · intro hback
    have hlength := (hkept.symm.trans hback).length_eq
    rw [List.length_map, List.length_map, List.length_filter_eq_length_iff] at hlength
    simpa using hlength
  · intro hall
    have hfilter : attrs.filter (fun a => decide (Survives others a)) = attrs :=
      List.filter_eq_self.mpr fun a ha => decide_eq_true (hall a ha)
    rwa [hfilter] at hkept

def attributeText : Attribute → String
  | .fixed n v => n ++ "=\"" ++ Markup.escapeValue v ++ "\""
  | _ => ""

def Writes (ps : List Piece) (out : Fields → String) : Prop :=
  ∃ items, Forms ps items ∧ ∀ params dot, writtenText (runList params [] dot items) = out params

variable {ps qs : List Piece} {out out' : Fields → String}

theorem Writes.nil : Writes [] fun _ => "" := by
  refine ⟨[], .nil, fun params dot => ?_⟩
  rw [runList]
  rfl

theorem Writes.append (h : Writes ps out) (h' : Writes qs out') :
    Writes (ps ++ qs) fun params => out params ++ out' params := by
  obtain ⟨items, hitems, hout⟩ := h
  obtain ⟨others, hothers, hout'⟩ := h'
  refine ⟨items ++ others, hitems.append hothers, fun params dot => ?_⟩
  rw [runList_append, writtenText_append, hout, hout']

theorem Writes.page (s : String) : Writes [.page s] fun _ => s := by
  refine ⟨[.page s], .page s, fun params dot => ?_⟩
  rw [runList_singleton, run]
  simp [writtenText, Event.written]

theorem isParamLetter_formatParam {key : String} (h : ∀ c ∈ key.toList, Key.isSafe c = true) :
    ∀ c ∈ (formatParam [key]).toList, Text.isParamLetter c = true := by
  intro c hc
  rw [formatParam_safe h, Text.toList_lower, Text.lowerWithin_of_isSafe h] at hc
  obtain ⟨d, hd, rfl⟩ := List.mem_map.mp hc
  exact Text.isParamLetter_toLower (h d hd)

theorem operand_key {key : String} (h : ∀ c ∈ key.toList, Key.isSafe c = true) :
    IsOperand (param 0 [key]) ∧ Operand.ofText (param 0 [key]) = some (.params [formatParam [key]]) := by
  have hletters := isParamLetter_formatParam h
  have hparam : param 0 [key] = param 0 [formatParam [key]] := by
    simp [param, formatParam_key hletters]
  rw [hparam]
  exact ⟨isOperand_param [] hletters, ofText_slot [] hletters fun hne => absurd rfl hne⟩

theorem not_delimited_param {key : String} (h : ∀ c ∈ key.toList, Key.isSafe c = true) :
    ¬Delimited (param 0 [key]) := by
  have hbrace : brace ∉ (formatParam [key]).toList := by
    intro hmem
    have hletter := isParamLetter_formatParam h _ hmem
    rw [Text.isParamLetter_ascii (by decide)] at hletter
    exact absurd hletter (by decide)
  rw [param, if_pos rfl, delimited_after (by decide)]
  exact not_delimited hbrace

theorem clean_of_held {t : MergeState} {p : Merge.Sources} {c : Attribute} (h : Merge.Held t p c)
    (hp : ∀ side a, p side = some a → CleanAttribute 0 a) : CleanAttribute 0 c := by
  cases h with
  | same hleft _ => exact hp _ _ hleft
  | differ hk hall =>
    obtain ⟨v, hv, -⟩ := hall .left
    exact ⟨(hp _ _ hv).1, not_delimited_param hk.clean.1⟩
  | lonely hk hv _ _ _ => exact ⟨(hp _ _ hv).1, not_delimited_param hk.clean.1⟩

theorem value?_params (params : Fields) (dot : Option Value) (k : String) :
    (Operand.params [k]).value? params dot = params.lookup k := by
  rw [Operand.value?, List.map_singleton, Value.at?_singleton]
  rfl

theorem value?_dot (params : Fields) (dot : Option Value) : (Operand.dot []).value? params dot = dot := by
  cases dot <;> rfl

theorem writes_attribute {c : Attribute} (hforeign : c ≠ .foreign)
    (href : ∀ r ∈ c.reference?, ∃ key, r = [key] ∧ Key.Normal key) :
    Writes (attributePieces 0 c) fun params => " " ++ String.join ((shown params c).map attributeText) := by
  cases c with
  | foreign => exact absurd rfl hforeign
  | fixed n v =>
    have hpage := Writes.page (" " ++ n ++ "=\"" ++ Markup.escapeValue v ++ "\"")
    simpa [attributePieces, shown, attributeText, String.append_assoc] using hpage
  | slot n r =>
    obtain ⟨key, rfl, hk⟩ := href r rfl
    obtain ⟨hword, hoperand⟩ := operand_key hk.clean.1
    have hforms := (Forms.page (" " ++ n ++ "=\"")).append ((Forms.slot hword hoperand .plain).append (.page "\""))
    have hpieces : attributePieces 0 (.slot n [key]) = [Piece.page (" " ++ n ++ "=\"")] ++
        ([Piece.action (param 0 [key] ++ slotFilter .plain)] ++ [Piece.page "\""]) := by
      simp [attributePieces, slotFilter]
    rw [← hpieces] at hforms
    refine ⟨_, hforms, fun params dot => ?_⟩
    simp [runList, run, value?_params, writtenText, Event.written, shown, attributeText, String.append_assoc]
  | optional n r =>
    obtain ⟨key, rfl, hk⟩ := href r rfl
    obtain ⟨hword, hoperand⟩ := operand_key hk.clean.1
    have hinner := (Forms.page (n ++ "=\"")).append (Forms.dot.append (.page "\""))
    have hforms := (Forms.page " ").append (.block hword hoperand .conditional hinner)
    have hpieces : attributePieces 0 (.optional n [key]) =
        [Piece.page " "] ++ ([Piece.action (blockWord .conditional ++ param 0 [key])] ++
          (([Piece.page (n ++ "=\"")] ++ ([Piece.action "."] ++ [Piece.page "\""])) ++
            [Piece.action "end"])) := by
      simp [attributePieces, blockWord]
    rw [← hpieces] at hforms
    refine ⟨_, hforms, fun params dot => ?_⟩
    by_cases htruthy : isTruthy (params.lookup (formatParam [key])) = true
    · simp [runList, run, value?_params, value?_dot, htruthy, writtenText, Event.written, shown, attributeText,
        String.append_assoc]
    · simp [runList, run, value?_params, htruthy, writtenText, Event.written, shown]

theorem writes_attributes {cs : List Attribute} (hforeign : .foreign ∉ cs)
    (href : ∀ c ∈ cs, ∀ r ∈ c.reference?, ∃ key, r = [key] ∧ Key.Normal key) :
    Writes (cs.flatMap (attributePieces 0)) fun params =>
      String.join (cs.map fun c => " " ++ String.join ((shown params c).map attributeText)) := by
  induction cs with
  | nil => exact .nil
  | cons c cs ih =>
    have hfirst := writes_attribute (List.ne_of_not_mem_cons hforeign).symm (href c List.mem_cons_self)
    have hrest := ih (List.not_mem_of_not_mem_cons hforeign) fun d hd => href d (List.mem_cons_of_mem _ hd)
    simpa only [List.flatMap_cons, List.map_cons, String.join_cons] using hfirst.append hrest

def elementText (name : String) (attrs : List (List Attribute)) : String :=
  "<" ++ name ++ String.join (attrs.map fun as => " " ++ String.join (as.map attributeText)) ++ ">" ++
    if Markup.voidElements.contains name then "" else "</" ++ name ++ ">"

theorem writes_element (name : String) {cs : List Attribute} (hforeign : .foreign ∉ cs)
    (href : ∀ c ∈ cs, ∀ r ∈ c.reference?, ∃ key, r = [key] ∧ Key.Normal key) :
    Writes (piecesList 0 false [.element ⟨name, cs⟩ []]) fun params => elementText name (cs.map (shown params)) := by
  have hopening := (Writes.page ("<" ++ name)).append ((writes_attributes hforeign href).append (.page ">"))
  have hpieces : piecesList 0 false [.element ⟨name, cs⟩ []] =
      ([Piece.page ("<" ++ name)] ++ (cs.flatMap (attributePieces 0) ++ [Piece.page ">"])) ++
        if Markup.voidElements.contains name then [] else [Piece.page ("</" ++ name ++ ">")] := by
    simp [piecesList, pieces]
  rw [hpieces]
  by_cases hvoid : Markup.voidElements.contains name = true
  · rw [if_pos hvoid, List.append_nil]
    simpa only [elementText, if_pos hvoid, List.map_map, Function.comp_def, String.append_assoc,
      String.append_empty] using hopening
  · rw [if_neg hvoid]
    have hall := hopening.append (.page ("</" ++ name ++ ">"))
    simpa only [elementText, if_neg hvoid, List.map_map, Function.comp_def, String.append_assoc] using hall

theorem render_element (name : String) {cs : List Attribute} (hforeign : .foreign ∉ cs) :
    ∃ text, render [.element ⟨name, cs⟩ []] = .ok text := by
  have hattrs : ∃ x, Markup.renderAttributes template 0 cs = .ok x := by
    apply Markup.renderAttributes_ok_of
    intro c hc
    cases c with
    | foreign => exact absurd hc hforeign
    | _ => exact ⟨_, rfl⟩
  obtain ⟨x, hx⟩ := hattrs
  rw [render, Markup.renderNodes, Markup.renderNode, hx, Markup.renderNodes, Markup.renderNodes]
  by_cases hvoid : name ∈ Markup.voidElements
  · simp [hvoid, bind, Except.bind, pure, Except.pure]
  · simp [hvoid, bind, Except.bind, pure, Except.pure]

section Merged

variable {α : Type} [Grade α] {name : String} {attrs : Side → List Attribute} {around : Around}
  {s t : MergeState} {n : Node}

theorem merged_held (hname : name ≠ "svg") (hfixed : ∀ side, ∀ a ∈ attrs side, a.isFixed = true)
    (hnames : ∀ side, ((attrs side).map Attribute.name).Nodup)
    (h : Merge.Returns (Merge.nodes α [] around (.element ⟨name, attrs .left⟩ [])
      (.element ⟨name, attrs .right⟩ [])) s n t) :
    ∃ cs ps, n = .element ⟨name, cs⟩ [] ∧ List.Forall₂ (Merge.Held t) ps cs ∧
      (∀ side, (ps.filterMap fun p => p side).Perm (attrs side)) ∧
      ∀ p ∈ ps, ∀ side a, p side = some a →
        (p side.other = none ↔ a.name ∉ (attrs side.other).map Attribute.name) := by
  obtain ⟨fuel, hfuel⟩ : ∃ fuel, Merge.nesting [.element ⟨name, attrs .left⟩ []]
      [.element ⟨name, attrs .right⟩ []] = fuel + 1 := ⟨_, rfl⟩
  rw [Merge.nodes, hfuel, Merge.mergeNode] at h
  cases Merge.Returns.mergeStep h with
  | drawings hsvg _ _ _ _ _ => exact absurd hsvg hname
  | kept hkept _ =>
    cases hkept with
    | drawing hsvg _ _ _ => exact absurd hsvg hname
  | @elements _ _ _ _ _ cs _ _ _ _ hattrs hsiblings =>
    obtain ⟨rfl, rfl⟩ := Merge.Returns.mergeSiblings_nil hsiblings
    obtain ⟨ps, hheld, hperm, hother⟩ := Merge.Returns.mergeAttributes_held hfixed hnames hattrs
    exact ⟨cs, ps, rfl, hheld, hperm, hother⟩

/-- What is merged of elements that open no action opens none. -/
theorem clean_merged (hname : name ≠ "svg") (hfixed : ∀ side, ∀ a ∈ attrs side, a.isFixed = true)
    (hnames : ∀ side, ((attrs side).map Attribute.name).Nodup) (hplain : ¬Delimited name)
    (hclean : ∀ side, ∀ a ∈ attrs side, CleanAttribute 0 a)
    (h : Merge.Returns (Merge.nodes α [] around (.element ⟨name, attrs .left⟩ [])
      (.element ⟨name, attrs .right⟩ [])) s n t) : CleanList 0 [n] := by
  obtain ⟨cs, ps, rfl, hheld, hperm, -⟩ := merged_held hname hfixed hnames h
  have hcs : ∀ c ∈ cs, CleanAttribute 0 c := by
    intro c hc
    obtain ⟨p, hp, hpc⟩ := Merge.exists_held hheld c hc
    apply clean_of_held hpc
    intro side a ha
    apply hclean side a
    exact (hperm side).mem_iff.mp (List.mem_filterMap.mpr ⟨p, hp, ha⟩)
  have helement : Clean 0 (.element ⟨name, cs⟩ []) := ⟨hplain, hcs, trivial⟩
  exact ⟨helement, trivial, fun hmeet => hmeet.1⟩

/-- Two elements of one name are merged, written as a template and read by each of the two pages. Where nothing
but the slots opens an action and no two parameters of the page have one name, it gets back all its attributes
if and only if none is lost. -/
theorem opening_tag_iff (hname : name ≠ "svg") (hfixed : ∀ side, ∀ a ∈ attrs side, a.isFixed = true)
    (hnames : ∀ side, ((attrs side).map Attribute.name).Nodup)
    (h : Merge.Returns (Merge.nodes α [] around (.element ⟨name, attrs .left⟩ [])
      (.element ⟨name, attrs .right⟩ [])) s n t) (hclean : CleanList 0 [n]) :
    ∃ cs text items, n = .element ⟨name, cs⟩ [] ∧ render [n] = .ok text ∧ Item.ofText text = some items ∧
      ∀ side, ((Assoc.keys (t.fields side)).map Text.lower).Nodup →
        (∀ dot, writtenText (runList (pageParams (t.fields side)) [] dot items) =
          elementText name (cs.map (shown (pageParams (t.fields side))))) ∧
        (((cs.flatMap (shown (pageParams (t.fields side)))).map Attribute.gist).Perm
            ((attrs side).map Attribute.gist) ↔
          ∀ a ∈ attrs side, Survives (attrs side.other) a) := by
  obtain ⟨cs, ps, rfl, hheld, hperm, hother⟩ := merged_held hname hfixed hnames h
  have hmem := Merge.exists_held hheld
  have hforeign : .foreign ∉ cs := by
    intro hc
    obtain ⟨_, _, hp⟩ := hmem _ hc
    exact hp.not_foreign
  have href : ∀ c ∈ cs, ∀ r ∈ c.reference?, ∃ key, r = [key] ∧ Key.Normal key := by
    intro c hc
    obtain ⟨_, _, hp⟩ := hmem c hc
    exact hp.reference
  obtain ⟨text, htext⟩ := render_element name hforeign
  obtain ⟨items, hitems, hout⟩ := writes_element name hforeign href
  have htight : Tight (piecesList 0 false [.element ⟨name, cs⟩ []]) := (tight_piecesList _ 0 false).mpr hclean
  obtain ⟨others, hothers, halike⟩ := hitems.ofText (letters_piecesList _ _ _ _ htext) htight
  refine ⟨cs, text, others, rfl, htext, hothers, fun side hkeys => ⟨fun dot => ?_, ?_⟩⟩
  · rw [← (halike _ _ dot).2, hout]
  · exact perm_shown_iff hkeys (hperm side) (fun p hp => hother p hp side) hheld

end Merged

def linkAttrs : Side → List Attribute
  | .left => [.fixed "href" "a.html", .fixed "title" "Ada"]
  | .right => [.fixed "href" "b.html"]

theorem opening_tag_links :
    ∃ n t cs text items, Merge.Returns (Merge.nodes Rat [] {} (.element ⟨"a", linkAttrs .left⟩ [])
        (.element ⟨"a", linkAttrs .right⟩ [])) {} n t ∧ CleanList 0 [n] ∧ n = .element ⟨"a", cs⟩ [] ∧
      render [n] = .ok text ∧ Item.ofText text = some items ∧
      ∀ side, (∀ dot, writtenText (runList (pageParams (t.fields side)) [] dot items) =
          elementText "a" (cs.map (shown (pageParams (t.fields side))))) ∧
        ((cs.flatMap (shown (pageParams (t.fields side)))).map Attribute.gist).Perm
          ((linkAttrs side).map Attribute.gist) := by
  obtain ⟨n, t, h, hkeys⟩ := Merge.exists_returns_state (s := {})
    (f := fun _ t => (Assoc.keys t.left, Assoc.keys t.right))
    (y := (["a_href", "a_title"], ["a_href", "a_title"]))
    (m := Merge.nodes Rat [] {} (.element ⟨"a", linkAttrs .left⟩ [])
      (.element ⟨"a", linkAttrs .right⟩ [])) (by decide +kernel)
  obtain ⟨hleft, hright⟩ := Prod.mk.inj hkeys
  have hdistinct : (["a_href", "a_title"].map Text.lower).Nodup := by
    decide +kernel
  have hall : ∀ side, ((Assoc.keys (t.fields side)).map Text.lower).Nodup ∧
      ∀ a ∈ linkAttrs side, Survives (linkAttrs side.other) a := by
    rintro (_ | _)
    · exact ⟨hleft ▸ hdistinct, by decide⟩
    · exact ⟨hright ▸ hdistinct, by decide⟩
  have hfixed : ∀ side, ∀ a ∈ linkAttrs side, a.isFixed = true := by
    rintro (_ | _) <;> decide
  have hnames : ∀ side, ((linkAttrs side).map Attribute.name).Nodup := by
    rintro (_ | _) <;> decide
  have hattrs : ∀ side, ∀ a ∈ linkAttrs side, CleanAttribute 0 a := by
    rintro (_ | _) <;> decide
  have hclean := clean_merged (by decide) hfixed hnames (by decide) hattrs h
  obtain ⟨cs, text, items, hn, htext, hitems, hsides⟩ := opening_tag_iff (by decide) hfixed hnames h hclean
  refine ⟨n, t, cs, text, items, h, hclean, hn, htext, hitems, fun side => ?_⟩
  obtain ⟨hout, hback⟩ := hsides side (hall side).1
  exact ⟨hout, hback.mpr (hall side).2⟩

def inputAttrs : Side → List Attribute
  | .left => [.fixed "disabled" ""]
  | .right => []

def inputText : String :=
  "<input \x7b\x7b with .Params.input_disabled \x7d\x7ddisabled=\"\x7b\x7b . \x7d\x7d\"\x7b\x7b end \x7d\x7d>"

theorem opening_tag_disabled :
    ∃ n t, Merge.Returns (Merge.nodes Rat [] {} (.element ⟨"input", inputAttrs .left⟩ [])
        (.element ⟨"input", inputAttrs .right⟩ [])) {} n t ∧
      render [n] = .ok inputText ∧ Assoc.keys t.left = ["input_disabled"] ∧
      (Item.ofText inputText).map (fun items => writtenText (runList (pageParams t.left) [] none items)) =
        some "<input >" := by
  obtain ⟨n, t, h, hall⟩ := Merge.exists_returns_state (s := {})
    (f := fun n t => (render [n], Assoc.keys t.left,
      (Item.ofText inputText).map fun items => writtenText (runList (pageParams t.left) [] none items)))
    (y := (.ok inputText, ["input_disabled"], some "<input >"))
    (m := Merge.nodes Rat [] {} (.element ⟨"input", inputAttrs .left⟩ [])
      (.element ⟨"input", inputAttrs .right⟩ [])) (by decide +kernel)
  simp only [Prod.mk.injEq] at hall
  exact ⟨n, t, h, hall⟩

end Hugo

end Stencil
