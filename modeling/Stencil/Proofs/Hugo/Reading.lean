import Stencil.Proofs.Hugo.Cut
import Stencil.Proofs.Hugo.Params
import Stencil.Proofs.Node.Scoped
import Stencil.Text.Digit

/-!
A written layout reads what its references say. Inside a block the path of a slot is cut to what lies below the
block, and the dot is the value of the block in the same pass of every loop, so the two together are the whole
path from the record of the page.
-/

namespace Stencil

namespace Text

def isParamLetter (c : Char) : Bool :=
  lowerChar c == c && c != 'İ' && (isCased c || isDecimal c || c == '_')

theorem isParamLetter_ascii {c : Char} (h : c.toNat < 128) :
    isParamLetter c = (c.isLower || c.isDigit || c == '_') := by
  rw [isParamLetter, isCased_ascii h]
  exact forall_ascii (P := fun c => (lowerChar c == c && c != 'İ' &&
    (inRanges [(65, 90), (97, 122)] c.toNat || isDecimal c || c == '_')) =
      (c.isLower || c.isDigit || c == '_')) (by decide +kernel) h

def breakPoints : List Nat :=
  [9, 10, 11, 12, 13, 28, 29, 30, 31, 32, 45, 46, 58, 64, 0x85, 0xA0, 0x1680, 0x2000, 0x2001, 0x2002, 0x2003,
    0x2004, 0x2005, 0x2006, 0x2007, 0x2008, 0x2009, 0x200A, 0x2028, 0x2029, 0x202F, 0x205F, 0x3000]

theorem mem_breakPoints {c : Char} (h : Hugo.isParamBreak c = true ∨ c = '.') : c.toNat ∈ breakPoints := by
  rcases h with h | rfl
  · simp only [Hugo.isParamBreak, isBlank, Bool.or_eq_true, beq_iff_eq, Bool.and_eq_true,
      decide_eq_true_eq] at h
    simp only [breakPoints, List.mem_cons, List.not_mem_nil, or_false]
    rcases h with ((rfl | rfl) | rfl) | h
    · decide
    · decide
    · decide
    · omega
  · decide

theorem isParamLetter_not_break {c : Char} (h : isParamLetter c = true) :
    Hugo.isParamBreak c = false ∧ c ≠ '.' := by
  have hpoints : ∀ n ∈ breakPoints, (inRanges casedRanges n || zeroDigits.any (fun first =>
      first ≤ n && n ≤ first + 9) || n == 95) = false := by
    decide +kernel
  by_contra hc
  rw [not_and_or, Bool.not_eq_false, not_not] at hc
  have hnone := hpoints _ (mem_breakPoints hc)
  rw [isParamLetter, Bool.and_eq_true] at h
  have hlast : (c.toNat == 95) = (c == '_') := by
    rw [Bool.eq_iff_iff, beq_iff_eq, beq_iff_eq, ← Char.toNat_inj]
    rfl
  rw [hlast] at hnone
  rw [isCased, isDecimal, hnone] at h
  exact absurd h.2 Bool.false_ne_true

theorem lowered_of_isParamLetter {c : Char} (h : isParamLetter c = true) (before behind : List Char) :
    lowered before c behind = [c] := by
  simp only [isParamLetter, Bool.and_eq_true, beq_iff_eq, bne_iff_ne] at h
  obtain ⟨⟨hlow, hdotted⟩, -⟩ := h
  have hsigma : c ≠ 'Σ' := by
    rintro rfl
    exact absurd hlow (by decide +kernel)
  simp [lowered, hdotted, hsigma, hlow]

end Text

namespace Value

variable {v : Value}

theorem at?_append (p q : Path) : v.at? (p ++ q) = (v.at? p).bind fun w => w.at? q := by
  induction p generalizing v with
  | nil => rfl
  | cons step p ih =>
    rw [List.cons_append, at?, at?]
    cases v.child? step with
    | none => rfl
    | some w => exact ih

theorem at?_singleton (step : Step) : v.at? [step] = v.child? step := by
  rw [at?]
  cases v.child? step <;> rfl

theorem at?_item (p : Path) (i : Nat) :
    v.at? (p ++ [Step.item i]) = (Hugo.itemsOf (v.at? p))[i]? := by
  rw [at?_append]
  cases v.at? p with
  | none => rfl
  | some w =>
    rw [Option.bind_some, at?_singleton]
    cases w <;> rfl

def passesOf (p : Path) : List Nat :=
  p.filterMap fun
    | .key _ => none
    | .item i => some i

end Value

namespace Hugo

open Value

def IsParamKey (k : String) : Prop :=
  k ≠ "" ∧ ∀ c ∈ k.toList, Text.isParamLetter c = true

theorem formatParam_key {k : String} (h : ∀ c ∈ k.toList, Text.isParamLetter c = true) :
    formatParam [k] = k := by
  have hlower (cs : List Char) (hcs : ∀ c ∈ cs, Text.isParamLetter c = true) (before : List Char) :
      Text.lowerWithin before [] cs = cs := by
    induction cs generalizing before with
    | nil => rfl
    | cons c cs ih =>
      rw [Text.lowerWithin, Text.lowered_of_isParamLetter (hcs c List.mem_cons_self),
        ih fun d hd => hcs d (List.mem_cons_of_mem _ hd)]
      rfl
  have hjoin : joinBreaks ([] ++ k.toList) = k.toList :=
    joinBreaks_append fun c hc => (Text.isParamLetter_not_break (h c hc)).1
  rw [← String.toList_inj, formatParam, String.toList_ofList, Text.toList_lower, String.intercalate_singleton,
    hlower _ h]
  exact hjoin

def slotOperand (chain : Scope) (k : String) : Operand :=
  if chain = [] then .params [k] else .dot [k]

theorem param_direct (chain : Scope) {k : String} (h : ∀ c ∈ k.toList, Text.isParamLetter c = true) :
    param chain.length (chain ++ [k]) = if chain = [] then ".Params." ++ k else "." ++ k := by
  cases chain with
  | nil => simp [param, formatParam_key h]
  | cons c chain =>
    have hdrop : (c :: chain ++ [k]).drop (c :: chain).length = [k] := List.drop_left
    rw [param, hdrop, formatParam_key h]
    simp

theorem ofText_slot (chain : Scope) {k : String} (h : ∀ c ∈ k.toList, Text.isParamLetter c = true)
    (hempty : chain ≠ [] → k ≠ "") :
    Operand.ofText (param chain.length (chain ++ [k])) = some (slotOperand chain k) := by
  have hdots : ∀ c ∈ k.toList, (c == '.') = false := by
    intro c hc
    exact beq_eq_false_iff_ne.mpr (Text.isParamLetter_not_break (h c hc)).2
  have hkey : Text.splitWhere (· == '.') k.toList = [k.toList] := Text.splitWhere_of_forall hdots
  have hparams : k ≠ "Params" := by
    rintro rfl
    have hupper := h 'P' (by simp)
    rw [Text.isParamLetter_ascii (by decide)] at hupper
    exact absurd hupper (by decide)
  have hdot : Text.splitWhere (· == '.') ("." ++ k).toList = [[], k.toList] := by
    rw [String.toList_append, ← hkey]
    exact Text.splitWhere_cons_of_pos rfl
  have hroot : Text.splitWhere (· == '.') (".Params." ++ k).toList = [[], "Params".toList, k.toList] := by
    have hletters : (".Params." ++ k).toList = ".Params".toList ++ '.' :: k.toList := by
      simp
    rw [hletters, Text.splitWhere_append rfl, hkey]
    rfl
  rw [param_direct chain h, slotOperand]
  split
  · rw [Operand.ofText, hroot]
    simp
  · next hne =>
    rw [Operand.ofText, hdot]
    simp [hempty hne, hparams]

theorem isWhitespace_not_paramLetter {c : Char} (h : c.isWhitespace = true) : Text.isParamLetter c = false := by
  have hbreak : isParamBreak c = true := by
    simp only [Char.isWhitespace, Bool.or_eq_true, decide_eq_true_eq] at h
    rcases h with ((rfl | rfl) | rfl) | rfl <;> decide
  by_contra hletter
  rw [Bool.not_eq_false] at hletter
  rw [(Text.isParamLetter_not_break hletter).1] at hbreak
  cases hbreak

theorem isOperand_param (chain : Scope) {k : String} (h : ∀ c ∈ k.toList, Text.isParamLetter c = true) :
    IsOperand (param chain.length (chain ++ [k])) := by
  have hblank : ∀ c ∈ k.toList, c.isWhitespace = false := by
    intro c hc
    by_contra hspace
    rw [Bool.not_eq_false] at hspace
    have hletter := h c hc
    rw [isWhitespace_not_paramLetter hspace] at hletter
    cases hletter
  have hclosed : '\x7d' ∉ k.toList := by
    intro hc
    have hletter := h _ hc
    rw [Text.isParamLetter_ascii (by decide)] at hletter
    exact absurd hletter (by decide)
  have hparams : IsOperand ".Params." := ⟨by simp [Char.isWhitespace], by simp, by simp⟩
  have hdot : IsOperand "." := ⟨by simp [Char.isWhitespace], by simp, by simp⟩
  rw [param_direct chain h]
  split
  · exact hparams.append hblank hclosed
  · exact hdot.append hblank hclosed

structure Dotted (record : Fields) (chain : Scope) (here : Path) (dot : Option Value) : Prop where
  keys : keysOf here = chain
  root : chain = [] → here = []
  dot : chain ≠ [] → dot = (Value.map record).at? here

section Dotted

variable {record : Fields} {chain : Scope} {here : Path} {dot : Option Value} {k : String}
  (h : Dotted record chain here dot)

include h

theorem Dotted.slotOperand (k : String) :
    (slotOperand chain k).value? record dot = (Value.map record).at? (here ++ [Step.key k]) := by
  unfold Hugo.slotOperand
  split
  · next hroot =>
    rw [h.root hroot]
    rfl
  · next hne =>
    rw [h.dot hne, at?_append]
    rfl

theorem Dotted.keys_concat (k : String) : keysOf (here ++ [Step.key k]) = chain ++ [k] := by
  rw [keysOf, List.flatMap_append, ← keysOf, h.keys]
  rfl

theorem Dotted.conditional (k : String) :
    Dotted record (chain ++ [k]) (here ++ [Step.key k]) ((Value.map record).at? (here ++ [Step.key k])) where
  keys := h.keys_concat k
  root := by simp
  dot _ := rfl

theorem Dotted.loop (k : String) (i : Nat) :
    Dotted record (chain ++ [k]) (here ++ [Step.key k] ++ [Step.item i])
      (itemsOf ((Value.map record).at? (here ++ [Step.key k])))[i]? where
  keys := by
    rw [keysOf, List.flatMap_append, ← keysOf, h.keys_concat k]
    exact List.append_nil _
  root := by simp
  dot _ := (at?_item _ i).symm

end Dotted

abbrev Visit := Reference × Path

def attributeVisits (record : Fields) (here : Path) : Attribute → List Visit
  | .slot _ r => [(r, here ++ [Step.key r.key])]
  | .optional _ r =>
    (r, here ++ [Step.key r.key]) ::
      if isTruthy ((Value.map record).at? (here ++ [Step.key r.key])) then [(r, here ++ [Step.key r.key])] else []
  | _ => []

mutual
/-- The references that are reached on the page of a record, each with the place in the record that it stands
for then. An optional attribute is asked for and then written; a loop is gone through once for each item. -/
def visits (record : Fields) (here : Path) : Node → List Visit
  | .element t cs => t.attrs.flatMap (attributeVisits record here) ++ visitsList record here cs
  | .slot _ r => [(r, here ++ [Step.key r.key])]
  | .block .conditional r t =>
    (r, here ++ [Step.key r.key]) ::
      if isTruthy ((Value.map record).at? (here ++ [Step.key r.key])) then visits record (here ++ [Step.key r.key]) t
      else []
  | .block .loop r t =>
    (r, here ++ [Step.key r.key]) ::
      (List.range (itemsOf ((Value.map record).at? (here ++ [Step.key r.key]))).length).flatMap fun i =>
        visits record (here ++ [Step.key r.key] ++ [Step.item i]) t
  | _ => []

def visitsList (record : Fields) (here : Path) : List Node → List Visit
  | [] => []
  | n :: rest => visits record here n ++ visitsList record here rest
end

def readAt (record : Fields) (place : Path) : Reading :=
  ⟨passesOf place, (Value.map record).at? place⟩

/-- Pieces that read the places of the visits, in this order, wherever the blocks `chain` are open. Every
place lies on the path of its reference. -/
def ReadsVisits (chain : Scope) (ps : List Piece) (visits : Fields → Path → List Visit) : Prop :=
  ∃ items, Forms ps items ∧ ∀ record here dot, Dotted record chain here dot →
    readings (runList record (passesOf here) dot items) = (visits record here).map (fun v => readAt record v.2) ∧
      ∀ v ∈ visits record here, keysOf v.2 = v.1

variable {chain : Scope} {ps qs : List Piece} {vs ws : Fields → Path → List Visit}

theorem passesOf_concat_key (here : Path) (k : String) : passesOf (here ++ [Step.key k]) = passesOf here := by
  simp [passesOf]

theorem passesOf_concat_item (here : Path) (i : Nat) : passesOf (here ++ [Step.item i]) = passesOf here ++ [i] := by
  simp [passesOf]

namespace ReadsVisits

theorem nil : ReadsVisits chain [] fun _ _ => [] := by
  refine ⟨[], .nil, fun record here dot _ => ⟨?_, by simp⟩⟩
  rw [runList]
  rfl

theorem append (h : ReadsVisits chain ps vs) (h' : ReadsVisits chain qs ws) :
    ReadsVisits chain (ps ++ qs) fun record here => vs record here ++ ws record here := by
  obtain ⟨items, hitems, hruns⟩ := h
  obtain ⟨others, hothers, hruns'⟩ := h'
  refine ⟨items ++ others, hitems.append hothers, fun record here dot hdot => ?_⟩
  obtain ⟨hreads, hkeys⟩ := hruns record here dot hdot
  obtain ⟨hreads', hkeys'⟩ := hruns' record here dot hdot
  constructor
  · rw [runList_append, readings_append, hreads, hreads', List.map_append]
  · intro v hv
    exact (List.mem_append.mp hv).elim (hkeys v) (hkeys' v)

theorem page (s : String) : ReadsVisits chain [Piece.page s] fun _ _ => [] := by
  refine ⟨[.page s], .page s, fun record here dot _ => ⟨?_, by simp⟩⟩
  rw [runList_singleton, run]
  rfl

theorem content : ReadsVisits chain [Piece.action "$.Content"] fun _ _ => [] := by
  refine ⟨[.content], .content, fun record here dot _ => ⟨?_, by simp⟩⟩
  rw [runList_singleton, run]
  rfl

theorem dot (hne : chain ≠ []) : ReadsVisits chain [Piece.action "."] fun _ here => [(chain, here)] := by
  refine ⟨_, .dot, fun record here dot hdot => ⟨?_, by simpa using hdot.keys⟩⟩
  rw [runList_singleton, run, Operand.value?, hdot.dot hne]
  cases h : (Value.map record).at? here <;> simp [readings, Event.reading?, readAt, at?, h]

variable {k : String} (hk : IsParamKey k)

include hk

theorem slot (kind : SlotKind) :
    ReadsVisits chain [Piece.action (param chain.length (chain ++ [k]) ++ slotFilter kind)]
      fun _ here => [(chain ++ [k], here ++ [Step.key k])] := by
  have hforms := Forms.slot (isOperand_param chain hk.2) (ofText_slot chain hk.2 fun _ => hk.1) kind
  refine ⟨_, hforms, fun record here dot hdot => ⟨?_, by simpa using hdot.keys_concat k⟩⟩
  rw [runList_singleton, run, hdot.slotOperand k]
  simp [readings, Event.reading?, readAt, passesOf_concat_key]

theorem conditional (h : ReadsVisits (chain ++ [k]) ps vs) :
    ReadsVisits chain ([Piece.action (blockWord .conditional ++ param chain.length (chain ++ [k]))] ++
        (ps ++ [Piece.action "end"]))
      fun record here => (chain ++ [k], here ++ [Step.key k]) ::
        if isTruthy ((Value.map record).at? (here ++ [Step.key k])) then vs record (here ++ [Step.key k]) else [] := by
  obtain ⟨items, hitems, hruns⟩ := h
  have hforms := Forms.block (isOperand_param chain hk.2) (ofText_slot chain hk.2 fun _ => hk.1) .conditional hitems
  refine ⟨_, hforms, fun record here dot hdot => ?_⟩
  obtain ⟨hreads, hkeys⟩ := hruns record _ _ (hdot.conditional k)
  rw [passesOf_concat_key] at hreads
  constructor
  · rw [runList_singleton, run, hdot.slotOperand k, List.map_cons, readAt, passesOf_concat_key]
    split
    · rw [← hreads]
      rfl
    · rfl
  · intro v hv
    rcases List.mem_cons.mp hv with rfl | hv
    · exact hdot.keys_concat k
    · split at hv
      · exact hkeys v hv
      · cases hv

theorem loop (h : ReadsVisits (chain ++ [k]) ps vs) :
    ReadsVisits chain ([Piece.action (blockWord .loop ++ param chain.length (chain ++ [k]))] ++
        (ps ++ [Piece.action "end"]))
      fun record here => (chain ++ [k], here ++ [Step.key k]) ::
        (List.range (itemsOf ((Value.map record).at? (here ++ [Step.key k]))).length).flatMap fun i =>
          vs record (here ++ [Step.key k] ++ [Step.item i]) := by
  obtain ⟨items, hitems, hruns⟩ := h
  have hforms := Forms.block (isOperand_param chain hk.2) (ofText_slot chain hk.2 fun _ => hk.1) .loop hitems
  refine ⟨_, hforms, fun record here dot hdot => ?_⟩
  have hpass (i : Nat) := hruns record _ _ (hdot.loop k i)
  constructor
  · rw [runList_singleton, run, hdot.slotOperand k, List.map_cons, readAt, passesOf_concat_key]
    have hreads (i : Nat) := (hpass i).1
    simp only [passesOf_concat_item, passesOf_concat_key] at hreads
    rw [List.map_flatMap]
    simp only [← hreads]
    exact congrArg _ List.filterMap_flatMap
  · intro v hv
    rcases List.mem_cons.mp hv with rfl | hv
    · exact hdot.keys_concat k
    · obtain ⟨i, -, hv⟩ := List.mem_flatMap.mp hv
      exact (hpass i).2 v hv

end ReadsVisits

theorem reads_attribute {a : Attribute} (h : ∀ r ∈ a.reference?, r.Direct chain ∧ ∀ k ∈ r, IsParamKey k) :
    ReadsVisits chain (attributePieces chain.length a) fun record here => attributeVisits record here a := by
  cases a with
  | fixed n v => exact .page _
  | foreign => exact .nil
  | slot n r =>
    obtain ⟨⟨k, rfl⟩, hkeys⟩ := h _ rfl
    have hk := hkeys k List.mem_concat_self
    have hname : ReadsVisits chain [Piece.page (" " ++ n ++ "=\"")] fun _ _ => [] := .page _
    have hslot : ReadsVisits chain [Piece.action (param chain.length (chain ++ [k]) ++ slotFilter .plain)]
        fun _ here => [(chain ++ [k], here ++ [Step.key k])] := .slot hk .plain
    rw [slotFilter, String.append_empty] at hslot
    have hall := hname.append (hslot.append (.page "\""))
    simpa [attributePieces, attributeVisits, Reference.key_append] using hall
  | optional n r =>
    obtain ⟨⟨k, rfl⟩, hkeys⟩ := h _ rfl
    have hk := hkeys k List.mem_concat_self
    have hblank : ReadsVisits chain [Piece.page " "] fun _ _ => [] := .page _
    have hdot : ReadsVisits (chain ++ [k]) [Piece.action "."] fun _ here => [(chain ++ [k], here)] := .dot (by simp)
    have hinner := (ReadsVisits.page (n ++ "=\"")).append (hdot.append (.page "\""))
    have hall := hblank.append (ReadsVisits.conditional hk hinner)
    simpa [attributePieces, attributeVisits, Reference.key_append, blockWord] using hall

theorem reads_attributes {attrs : List Attribute}
    (h : ∀ a ∈ attrs, ∀ r ∈ a.reference?, r.Direct chain ∧ ∀ k ∈ r, IsParamKey k) :
    ReadsVisits chain (attrs.flatMap (attributePieces chain.length))
      fun record here => attrs.flatMap (attributeVisits record here) := by
  induction attrs with
  | nil => exact .nil
  | cons a attrs ih =>
    have hfirst := reads_attribute (h a List.mem_cons_self)
    have hrest := ih fun b hb => h b (List.mem_cons_of_mem _ hb)
    exact hfirst.append hrest

mutual
theorem reads_pieces : (n : Node) → (chain : Scope) → (raw : Bool) → n.Scoped chain →
    (∀ r ∈ n.references, ∀ k ∈ r, IsParamKey k) →
    ReadsVisits chain (pieces chain.length raw n) fun record here => visits record here n
  | .literal k v, chain, raw, _, _ => .page _
  | .content, chain, raw, _, _ => .content
  | .foreign, chain, raw, _, _ => .nil
  | .slot kind r, chain, raw, hscoped, hkeys => by
    obtain ⟨k, rfl⟩ := hscoped
    have hk := hkeys _ (List.mem_singleton_self _) k List.mem_concat_self
    simpa only [pieces, visits, Reference.key_append] using ReadsVisits.slot hk kind
  | .block kind r t, chain, raw, hscoped, hkeys => by
    obtain ⟨⟨k, rfl⟩, ht⟩ := hscoped
    have hk := hkeys _ List.mem_cons_self k List.mem_concat_self
    have hbody := reads_pieces t (chain ++ [k]) false ht fun r hr => hkeys r (List.mem_cons_of_mem _ hr)
    cases kind with
    | conditional => simpa only [pieces, visits, Reference.key_append] using ReadsVisits.conditional hk hbody
    | loop => simpa only [pieces, visits, Reference.key_append] using ReadsVisits.loop hk hbody
  | .element t cs, chain, raw, hscoped, hkeys => by
    have hattrs : ReadsVisits chain (t.attrs.flatMap (attributePieces chain.length))
        fun record here => t.attrs.flatMap (attributeVisits record here) := by
      apply reads_attributes
      intro a ha r hr
      have hmem : r ∈ t.attrs.filterMap Attribute.reference? := List.mem_filterMap.mpr ⟨a, ha, hr⟩
      exact ⟨hscoped.1 r hmem, hkeys r (List.mem_append_left _ hmem)⟩
    have hchildren := reads_piecesList cs chain (Markup.rawTextElements.contains t.name) hscoped.2 fun r hr =>
      hkeys r (List.mem_append_right _ hr)
    have hname : ReadsVisits chain [Piece.page ("<" ++ t.name)] fun _ _ => [] := .page _
    have hopening := hname.append (hattrs.append (.page ">"))
    -- a void element without children has no closing tag
    by_cases hvoid : (cs.isEmpty && Markup.voidElements.contains t.name) = true
    · have hnone : cs = [] := by
        rw [Bool.and_eq_true, List.isEmpty_iff] at hvoid
        exact hvoid.1
      rw [pieces, if_pos hvoid]
      simpa [visits, visitsList, hnone] using hopening
    · have hall := hopening.append (hchildren.append (.page ("</" ++ t.name ++ ">")))
      rw [pieces, if_neg hvoid]
      simpa only [visits, List.append_assoc, List.nil_append, List.append_nil] using hall

theorem reads_piecesList : (ns : List Node) → (chain : Scope) → (raw : Bool) → Node.ScopedList chain ns →
    (∀ r ∈ Node.referencesOfList ns, ∀ k ∈ r, IsParamKey k) →
    ReadsVisits chain (piecesList chain.length raw ns) fun record here => visitsList record here ns
  | [], _, _, _, _ => .nil
  | n :: rest, chain, raw, hscoped, hkeys =>
    (reads_pieces n chain raw hscoped.1 fun r hr => hkeys r (List.mem_append_left _ hr)).append
      (reads_piecesList rest chain raw hscoped.2 fun r hr => hkeys r (List.mem_append_right _ hr))
end

/-- A written layout whose page opens no action of its own is cut into actions, and on every page of data each
reference is read at the place it names: as often as it is reached, in this order, and in the passes of the
loops around it. -/
theorem layout_reads {ns : List Node} {text : String} (h : render ns = .ok text) (hclean : CleanList 0 ns)
    (hscoped : Node.ScopedList [] ns) (hkeys : ∀ r ∈ Node.referencesOfList ns, ∀ k ∈ r, IsParamKey k) :
    ∃ items, Item.ofText text = some items ∧ ∀ (record : Fields) (dot : Option Value),
      readings (runList record [] dot items) = (visitsList record [] ns).map (fun v => readAt record v.2) ∧
        ∀ v ∈ visitsList record [] ns, keysOf v.2 = v.1 := by
  obtain ⟨items, hitems, hruns⟩ := reads_piecesList ns [] false hscoped hkeys
  have htight : Tight (piecesList 0 false ns) := (tight_piecesList ns 0 false).mpr hclean
  obtain ⟨others, hothers, halike⟩ := hitems.ofText (letters_piecesList ns 0 false text h) htight
  refine ⟨others, hothers, fun record dot => ?_⟩
  obtain ⟨hreads, hplaces⟩ := hruns record [] dot ⟨rfl, fun _ => rfl, fun hne => absurd rfl hne⟩
  exact ⟨(halike record [] dot).1.symm.trans hreads, hplaces⟩

def notes : List Node :=
  [.element ⟨"ul", [.optional "class" ["style"]]⟩
    [.block .loop ["items"] (.element ⟨"li", [.slot "id" ["items", "id"]]⟩
      [.block .conditional ["items", "note"] (.element ⟨"b", []⟩ [.slot .plain ["items", "note", "text"]])])]]

def noteWords : List String :=
  ["style", "items", "id", "note", "text"]

theorem isParamKey_of_mem {k : String} (h : k ∈ noteWords) : IsParamKey k := by
  have hall : ∀ k ∈ noteWords, IsParamKey k := by
    simp [noteWords, IsParamKey, Text.isParamLetter_ascii]
  exact hall k h

def noteText : String :=
  "<ul \x7b\x7b with .Params.style \x7d\x7dclass=\"\x7b\x7b . \x7d\x7d\"\x7b\x7b end \x7d\x7d>" ++
    "\x7b\x7b range .Params.items \x7d\x7d<li id=\"\x7b\x7b .id \x7d\x7d\">\x7b\x7b with .note \x7d\x7d" ++
    "<b>\x7b\x7b .text \x7d\x7d</b>\x7b\x7b end \x7d\x7d</li>\x7b\x7b end \x7d\x7d</ul>"

def noteRecord : Fields :=
  [("style", .text "wide"),
    ("items", .list [.map [("id", .text "a"), ("note", .map [("text", .text "new")])],
      .map [("id", .text "b"), ("note", .null)]])]

example : (visitsList noteRecord [] notes).map Prod.snd =
    [[Step.key "style"], [Step.key "style"], [Step.key "items"],
      [Step.key "items", Step.item 0, Step.key "id"], [Step.key "items", Step.item 0, Step.key "note"],
      [Step.key "items", Step.item 0, Step.key "note", Step.key "text"],
      [Step.key "items", Step.item 1, Step.key "id"], [Step.key "items", Step.item 1, Step.key "note"]] := by
  rfl

theorem layout_reads_notes :
    render notes = .ok noteText ∧ CleanList 0 notes ∧ Node.ScopedList [] notes ∧
      (∀ r ∈ Node.referencesOfList notes, ∀ k ∈ r, IsParamKey k) ∧
      ∃ items, Item.ofText noteText = some items ∧ ∀ (record : Fields) (dot : Option Value),
        readings (runList record [] dot items) =
            (visitsList record [] notes).map (fun v => readAt record v.2) ∧
          ∀ v ∈ visitsList record [] notes, keysOf v.2 = v.1 := by
  have htext : render notes = .ok noteText := by
    decide +kernel
  have hclean : CleanList 0 notes := by
    decide +kernel
  have hkeys : ∀ r ∈ Node.referencesOfList notes, ∀ k ∈ r, IsParamKey k := by
    have hwords : ∀ r ∈ Node.referencesOfList notes, ∀ k ∈ r, k ∈ noteWords := by
      decide
    exact fun r hr k hk => isParamKey_of_mem (hwords r hr k hk)
  exact ⟨htext, hclean, by decide, hkeys, layout_reads htext hclean (by decide) hkeys⟩

def strays : List Node :=
  [.block .loop ["items"] (.element ⟨"li", []⟩
    [.text "\x7b\x7b end \x7d\x7d\x7b\x7b with .Params.other \x7d\x7d", .slot .plain ["items", "id"]])]

def strayText : String :=
  "\x7b\x7b range .Params.items \x7d\x7d<li>\x7b\x7b end \x7d\x7d" ++
    "\x7b\x7b with .Params.other \x7d\x7d\x7b\x7b .id \x7d\x7d</li>\x7b\x7b end \x7d\x7d"

def strayRecord : Fields :=
  [("items", .list [.map [("id", .text "a")]]), ("other", .map [("id", .text "b")])]

theorem ofText_stray :
    Item.ofText strayText = some [.page "", .block .loop (.params ["items"]) [.page "<li>"], .page "",
      .block .conditional (.params ["other"]) [.page "", .value (.dot ["id"]), .page "</li>"], .page ""] :=
  rfl

/-- What is read at the identifier of an item is that of the other map. -/
theorem strays_misread :
    render strays = .ok strayText ∧ Node.ScopedList [] strays ∧
      (∀ r ∈ Node.referencesOfList strays, ∀ k ∈ r, IsParamKey k) ∧
      (Item.ofText strayText).map (fun items => readings (runList strayRecord [] none items)) =
        some [⟨[], some (.list [.map [("id", .text "a")]])⟩, ⟨[], some (.map [("id", .text "b")])⟩,
          ⟨[], some (.text "b")⟩] ∧
      (visitsList strayRecord [] strays).map (fun v => readAt strayRecord v.2) =
        [⟨[], some (.list [.map [("id", .text "a")]])⟩, ⟨[0], some (.text "a")⟩] := by
  have hkeys : ∀ r ∈ Node.referencesOfList strays, ∀ k ∈ r, IsParamKey k := by
    have hwords : ∀ r ∈ Node.referencesOfList strays, ∀ k ∈ r, k ∈ noteWords := by
      decide
    exact fun r hr k hk => isParamKey_of_mem (hwords r hr k hk)
  refine ⟨by decide +kernel, by decide, hkeys, ?_, rfl⟩
  rw [ofText_stray, Option.map_some]
  simp [runList, run, readings, Event.reading?, Operand.value?, strayRecord, Value.at?, Value.child?, itemsOf,
    isTruthy, List.lookup, List.filterMap_cons]

end Hugo

end Stencil
