import Stencil.Proofs.Hugo.Actions

namespace Stencil.Hugo

open Node Markup

def CleanAttribute (depth : Nat) : Attribute → Prop
  | .fixed n v => ¬Delimited n ∧ ¬Delimited v
  | .slot n r => ¬Delimited n ∧ ¬Delimited (param depth r)
  | .optional n r => ¬Delimited n ∧ ¬Delimited (param depth r)
  | .foreign => True

instance (depth : Nat) : DecidablePred (CleanAttribute depth)
  | .fixed n v => inferInstanceAs (Decidable (¬Delimited n ∧ ¬Delimited v))
  | .slot n r => inferInstanceAs (Decidable (¬Delimited n ∧ ¬Delimited (param depth r)))
  | .optional n r => inferInstanceAs (Decidable (¬Delimited n ∧ ¬Delimited (param depth r)))
  | .foreign => inferInstanceAs (Decidable True)

def EndsOpen : Node → Prop
  | .literal .text v => v.toList.getLast? = some brace
  | _ => False

def BeginsOpen : List Node → Prop
  | [] => False
  | .literal .text v :: rest => v.toList.head? = some brace ∨ v = "" ∧ BeginsOpen rest
  | .literal .. :: _ => False
  | .element .. :: _ => False
  | .slot .. :: _ => True
  | .block .. :: _ => True
  | .content :: _ => True
  | .foreign :: rest => BeginsOpen rest

mutual
/-- No literal, name, value or parameter of a tree holds the letters that open an action, and no text that ends
with a brace stands before what begins with one. -/
def Clean (depth : Nat) : Node → Prop
  | .literal _ v => ¬Delimited v
  | .element t cs => ¬Delimited t.name ∧ (∀ a ∈ t.attrs, CleanAttribute depth a) ∧ CleanList depth cs
  | .slot _ r => ¬Delimited (param depth r)
  | .block _ r t => ¬Delimited (param depth r) ∧ Clean r.length t ∧ ¬EndsOpen t
  | .content => True
  | .foreign => True

def CleanList (depth : Nat) : List Node → Prop
  | [] => True
  | n :: rest => Clean depth n ∧ CleanList depth rest ∧ ¬(EndsOpen n ∧ BeginsOpen rest)
end

section Attributes

variable {depth : Nat} {attrs : List Attribute} {a : Attribute}

theorem tight_attributePieces : Tight (attributePieces depth a) ↔ CleanAttribute depth a := by
  cases a with
  | fixed n v =>
    rw [attributePieces, tight_closed (by decide) (by decide), delimited_around (by decide) (by decide),
      delimited_after (by decide), delimited_escapeValue, not_or]
    simp [CleanAttribute, Tight]
  | slot n r =>
    rw [attributePieces, tight_closed (by decide) (by decide), delimited_after (by decide), tight_action,
      tight_constant (by decide)]
    simp [CleanAttribute, Tight]
  | optional n r =>
    rw [attributePieces, tight_constant (by decide), tight_action, delimited_after (by decide),
      tight_closed (by decide) (by decide), tight_action, tight_constant (by decide), tight_action]
    simp [CleanAttribute, Tight, not_delimited, brace, and_comm]
  | foreign => simp [attributePieces, Tight, CleanAttribute]

theorem head?_attributePieces (depth : Nat) (a : Attribute) :
    (letters (attributePieces depth a)).head? ≠ some brace := by
  cases a <;> simp [attributePieces, letters, Piece.letters, brace]

theorem head?_attributes (depth : Nat) (attrs : List Attribute) :
    (letters (attrs.flatMap (attributePieces depth))).head? ≠ some brace := by
  induction attrs with
  | nil => exact nofun
  | cons a attrs ih =>
    rw [List.flatMap_cons, letters_append]
    exact head?_append_ne (head?_attributePieces depth a) ih

theorem tight_attributes :
    Tight (attrs.flatMap (attributePieces depth)) ↔ ∀ a ∈ attrs, CleanAttribute depth a := by
  induction attrs with
  | nil => simp [Tight]
  | cons a attrs ih =>
    rw [List.flatMap_cons, tight_append_of_head (head?_attributes depth attrs), tight_attributePieces, ih,
      List.forall_mem_cons]

end Attributes

theorem renderText_eq_nil_iff (raw : Bool) (v : String) : (renderLiteral raw .text v).toList = [] ↔ v = "" := by
  cases raw with
  | true => exact String.toList_eq_nil_iff
  | false =>
    rw [renderLiteral, if_neg Bool.false_ne_true, toList_escapeText, spares_escapeTextChar.flatMap_eq_nil_iff,
      String.toList_eq_nil_iff]

theorem head?_renderText (raw : Bool) (v : String) :
    (renderLiteral raw .text v).toList.head? = some brace ↔ v.toList.head? = some brace := by
  cases raw with
  | true => exact Iff.rfl
  | false =>
    rw [renderLiteral, if_neg Bool.false_ne_true, toList_escapeText, spares_escapeTextChar.head?_flatMap]

theorem getLast?_renderText (raw : Bool) (v : String) :
    (renderLiteral raw .text v).toList.getLast? = some brace ↔ v.toList.getLast? = some brace := by
  cases raw with
  | true => exact Iff.rfl
  | false =>
    rw [renderLiteral, if_neg Bool.false_ne_true, toList_escapeText, spares_escapeTextChar.getLast?_flatMap]

theorem delimited_renderLiteral (raw : Bool) (k : LiteralKind) (v : String) :
    Delimited (renderLiteral raw k v) ↔ Delimited v := by
  cases k with
  | text =>
    cases raw with
    | true => exact Iff.rfl
    | false => exact delimited_escapeText v
  | doctype => rw [renderLiteral, delimited_before (by decide), delimited_after (by decide)]
  | comment => rw [renderLiteral, delimited_before (by decide), delimited_after (by decide)]
  | cdata => rw [renderLiteral, delimited_before (by decide), delimited_after (by decide)]

theorem getLast?_element (depth : Nat) (raw : Bool) (t : Tag) (cs : List Node) :
    (letters (pieces depth raw (.element t cs))).getLast? = some '>' := by
  rw [pieces]
  split
  · rw [List.append_nil, ← List.append_assoc]
    exact getLast?_letters_concat rfl
  · simp only [← List.append_assoc]
    apply getLast?_letters_concat
    exact getLast?_page rfl

theorem endsOpen_iff (n : Node) (depth : Nat) (raw : Bool) :
    (letters (pieces depth raw n)).getLast? = some brace ↔ EndsOpen n := by
  cases n with
  | literal k v =>
    rw [pieces, letters_singleton]
    cases k with
    | text => exact getLast?_renderText raw v
    | _ =>
      rw [renderLiteral, getLast?_page rfl]
      exact iff_of_false (by decide) id
  | element t cs =>
    rw [getLast?_element]
    exact iff_of_false (by decide) id
  | slot k r =>
    rw [pieces, letters_singleton, getLast?_action]
    exact iff_of_false (by decide) id
  | block k r t =>
    rw [pieces, ← List.append_assoc, getLast?_letters_concat getLast?_action]
    exact iff_of_false (by decide) id
  | content =>
    rw [pieces, letters_singleton, getLast?_action]
    exact iff_of_false (by decide) id
  | foreign =>
    rw [pieces]
    exact iff_of_false (by decide) id

theorem beginsOpen_iff (ns : List Node) (depth : Nat) (raw : Bool) :
    (letters (piecesList depth raw ns)).head? = some brace ↔ BeginsOpen ns := by
  induction ns with
  | nil =>
    rw [piecesList]
    exact iff_of_false nofun id
  | cons n rest ih =>
    rw [piecesList]
    cases n with
    | literal k v =>
      cases k with
      | text =>
        rw [pieces, letters_append, letters_singleton, Piece.letters, BeginsOpen]
        -- behind an empty text the next node decides
        by_cases hv : v = ""
        · have hnil := (renderText_eq_nil_iff raw v).mpr hv
          rw [hnil, List.nil_append, ih, or_iff_right (by simp [hv]), and_iff_right hv]
        · have hne := mt (renderText_eq_nil_iff raw v).mp hv
          rw [List.head?_append_of_ne_nil _ hne, head?_renderText, or_iff_left (fun h => hv h.1)]
      | _ =>
        rw [pieces, renderLiteral, List.singleton_append, String.append_assoc, head?_letters_page rfl]
        exact iff_of_false (by decide) id
    | element t cs =>
      rw [pieces, List.append_assoc, List.singleton_append, head?_letters_page rfl]
      exact iff_of_false (by decide) id
    | slot k r =>
      rw [pieces, List.singleton_append, head?_letters_action]
      exact iff_of_true rfl trivial
    | block k r t =>
      rw [pieces, List.append_assoc, List.singleton_append, head?_letters_action]
      exact iff_of_true rfl trivial
    | content =>
      rw [pieces, List.singleton_append, head?_letters_action]
      exact iff_of_true rfl trivial
    | foreign =>
      rw [pieces, List.nil_append, BeginsOpen, ih]

theorem meet_pieces_iff (n : Node) (rest : List Node) (depth : Nat) (raw : Bool) :
    Meet (letters (pieces depth raw n)) (letters (piecesList depth raw rest)) ↔ EndsOpen n ∧ BeginsOpen rest := by
  rw [Meet, endsOpen_iff, beginsOpen_iff]

theorem tight_opening {depth : Nat} {t : Tag} {ps : List Piece} :
    Tight ([.page ("<" ++ t.name)] ++ (t.attrs.flatMap (attributePieces depth) ++ ([.page ">"] ++ ps))) ↔
      ¬Delimited t.name ∧ (∀ a ∈ t.attrs, CleanAttribute depth a) ∧ Tight ps := by
  have hclose : (letters ([.page ">"] ++ ps)).head? ≠ some brace := by
    rw [letters_append]
    exact ne_of_beq_false rfl
  have hattrs : (letters (t.attrs.flatMap (attributePieces depth) ++ ([.page ">"] ++ ps))).head? ≠ some brace := by
    rw [letters_append]
    exact head?_append_ne (head?_attributes depth t.attrs) hclose
  rw [tight_append_of_head hattrs, tight_append_of_head hclose, tight_singleton, Piece.inner,
    delimited_after (by decide), tight_attributes, List.singleton_append, tight_constant (by decide)]

theorem tight_closing {name : String} {ps : List Piece} :
    Tight (ps ++ [.page ("</" ++ name ++ ">")]) ↔ Tight ps ∧ ¬Delimited name := by
  have hhead : (letters [.page ("</" ++ name ++ ">")]).head? ≠ some brace := by
    rw [String.append_assoc, head?_letters_page rfl]
    decide
  rw [tight_append_of_head hhead, tight_singleton, Piece.inner, delimited_before (by decide),
    delimited_after (by decide)]

mutual
theorem tight_pieces : (n : Node) → (depth : Nat) → (raw : Bool) →
    (Tight (pieces depth raw n) ↔ Clean depth n)
  | .literal k v, depth, raw => by
    rw [pieces, tight_singleton, Clean, Piece.inner, delimited_renderLiteral]
  | .element t cs, depth, raw => by
    rw [pieces, Clean, tight_opening]
    apply and_congr_right
    intro hname
    apply and_congr_right
    intro _
    by_cases hvoid : (cs.isEmpty && voidElements.contains t.name) = true
    · rw [if_pos hvoid]
      rw [Bool.and_eq_true, List.isEmpty_iff] at hvoid
      rw [hvoid.1, CleanList, Tight]
    · rw [if_neg hvoid, tight_closing, tight_piecesList cs, and_iff_left hname]
  | .slot k r, depth, raw => by
    have hfilter : brace ∉ (slotFilter k).toList := by
      cases k <;> decide
    rw [pieces, tight_action, delimited_before hfilter, Clean, Tight, and_true]
  | .block k r t, depth, raw => by
    have hword : brace ∉ (blockWord k).toList := by
      cases k <;> decide
    have hend : Tight [.action "end"] := tight_action.mpr ⟨not_delimited (by decide), trivial⟩
    rw [pieces, List.singleton_append, tight_action, delimited_after hword, tight_append, tight_pieces t, Clean,
      Meet, endsOpen_iff, head?_letters_action]
    simp [hend]
  | .content, depth, raw => by
    rw [pieces, Clean, tight_action]
    exact iff_of_true ⟨not_delimited (by decide), trivial⟩ trivial
  | .foreign, depth, raw => by
    rw [pieces, Clean, Tight]

theorem tight_piecesList : (ns : List Node) → (depth : Nat) → (raw : Bool) →
    (Tight (piecesList depth raw ns) ↔ CleanList depth ns)
  | [], _, _ => by
    rw [piecesList, CleanList, Tight]
  | n :: rest, depth, raw => by
    rw [piecesList, CleanList, tight_append, tight_pieces n, tight_piecesList rest, meet_pieces_iff]
end

instance (depth : Nat) (ns : List Node) : Decidable (CleanList depth ns) :=
  decidable_of_iff (openings (letters (piecesList depth false ns)) = starts (piecesList depth false ns))
    (openings_eq_starts_iff.trans (tight_piecesList ns depth false))

/-- The actions of every layout that is written are those of its slots, blocks and content marks, in their
order, and each stands at its place in the text. Nothing else opens an action if and only if the layout is
clean. -/
theorem written_openings_iff {depth : Nat} {ns : List Node} {text : String}
    (h : renderNodes template depth false ns = .ok text) :
    letters (piecesList depth false ns) = text.toList ∧
      (piecesList depth false ns).filterMap Piece.body? = actionsList depth ns ∧
      List.Sublist (starts (piecesList depth false ns)) (openings text.toList) ∧
      (openings text.toList = starts (piecesList depth false ns) ↔ CleanList depth ns) := by
  have hletters := letters_piecesList ns depth false text h
  refine ⟨hletters, body?_piecesList ns depth false, ?_, ?_⟩
  · rw [← hletters]
    exact starts_sublist _
  · rw [← hletters, openings_eq_starts_iff, tight_piecesList]

theorem written_openings_badges :
    ∃ ns text, ns = [.element ⟨"ul", [.fixed "class" "badges"]⟩ [.block .loop ["badges_items"]
        (.element ⟨"li", [.slot "class" ["badges_items", "class"]]⟩ [.slot .plain ["badges_items", "text"]])]] ∧
      renderNodes template 0 false ns = .ok text ∧ CleanList 0 ns ∧
      actionsList 0 ns = ["range .Params.badges_items", ".class", ".text", "end"] ∧
      openings text.toList = starts (piecesList 0 false ns) := by
  refine ⟨_, "<ul class=\"badges\">\x7b\x7b range .Params.badges_items \x7d\x7d<li class=\"\x7b\x7b .class \x7d\x7d\">" ++
    "\x7b\x7b .text \x7d\x7d</li>\x7b\x7b end \x7d\x7d</ul>", rfl, rfl, ?hclean, by decide +kernel,
    (written_openings_iff rfl).2.2.2.mpr ?hclean⟩
  simp only [CleanList, Clean, EndsOpen, BeginsOpen, CleanAttribute, List.forall_mem_singleton]
  decide +kernel

/-- Texts, values, comments, names and parameters that open actions of their own, and texts that open one with
what follows them. -/
theorem page_openings :
    [[.text "\x7b\x7b x \x7d\x7d"], [.literal .comment "\x7b\x7b"], [.literal .cdata "\x7b\x7b"],
      [.literal .doctype "\x7b\x7b"], [.element ⟨"script", []⟩ [.text "\x7b\x7b"]],
      [.element ⟨"\x7b\x7b", []⟩ []], [.element ⟨"a", [.fixed "title" "\x7b\x7b"]⟩ []],
      [.element ⟨"a", [.fixed "\x7b\x7b" ""]⟩ []], [.slot .plain ["\x7b\x7b"]],
      [.text "\x7b", .text "", .text "\x7b"], [.text "\x7b", .content],
      [.block .conditional ["a"] (.text "\x7b")]].map
      (fun ns => ((Hugo.render ns).toOption.map fun text => openings text.toList, starts (piecesList 0 false ns))) =
    [(some [0], []), (some [4], []), (some [9], []), (some [10], []), (some [8], []), (some [1, 6], []),
      (some [10], []), (some [3], []), (some [0, 11], [0]), (some [0], []), (some [0, 1], [1]),
      (some [0, 20, 21], [0, 21])] := by
  decide +kernel

end Stencil.Hugo
