import Stencil.Hugo.Project
import Stencil.Proofs.Failure
import Stencil.Proofs.Hugo.Pieces

namespace Stencil.Hugo

open Node Markup

def attributePieces (depth : Nat) : Attribute → List Piece
  | .fixed n v => [.page (" " ++ n ++ "=\"" ++ escapeValue v ++ "\"")]
  | .slot n r => [.page (" " ++ n ++ "=\""), .action (param depth r), .page "\""]
  | .optional n r =>
    [.page " ", .action ("with " ++ param depth r), .page (n ++ "=\""), .action ".", .page "\"", .action "end"]
  | .foreign => []

mutual
def pieces (depth : Nat) (rawText : Bool) : Node → List Piece
  | .literal k v => [.page (renderLiteral rawText k v)]
  | .element t cs =>
    [.page ("<" ++ t.name)] ++ (t.attrs.flatMap (attributePieces depth) ++ ([.page ">"] ++
      if cs.isEmpty && voidElements.contains t.name then []
      else piecesList depth (rawTextElements.contains t.name) cs ++ [.page ("</" ++ t.name ++ ">")]))
  | .slot k r => [.action (param depth r ++ slotFilter k)]
  | .block k r t => [.action (blockWord k ++ param depth r)] ++ (pieces r.length false t ++ [.action "end"])
  | .content => [.action "$.Content"]
  | .foreign => []

def piecesList (depth : Nat) (rawText : Bool) : List Node → List Piece
  | [] => []
  | n :: rest => pieces depth rawText n ++ piecesList depth rawText rest
end

def attributeActions (depth : Nat) : Attribute → List String
  | .fixed .. => []
  | .slot _ r => [param depth r]
  | .optional _ r => ["with " ++ param depth r, ".", "end"]
  | .foreign => []

mutual
def actions (depth : Nat) : Node → List String
  | .literal .. => []
  | .element t cs => t.attrs.flatMap (attributeActions depth) ++ actionsList depth cs
  | .slot k r => [param depth r ++ slotFilter k]
  | .block k r t => [blockWord k ++ param depth r] ++ actions r.length t ++ ["end"]
  | .content => ["$.Content"]
  | .foreign => []

def actionsList (depth : Nat) : List Node → List String
  | [] => []
  | n :: rest => actions depth n ++ actionsList depth rest
end

theorem letters_attributePieces {depth : Nat} {a : Attribute} {text : String}
    (h : renderAttribute template depth a = .ok text) :
    letters (attributePieces depth a) = (" " ++ text).toList := by
  cases a with
  | fixed n v =>
    cases h
    simp [attributePieces, letters, Piece.letters]
  | slot n r =>
    cases h
    simp [attributePieces, letters, Piece.letters]
  | optional n r =>
    cases h
    simp [attributePieces, letters, Piece.letters]
  | foreign => cases h

theorem letters_attributes {depth : Nat} {attrs : List Attribute} {text : String}
    (h : renderAttributes template depth attrs = .ok text) :
    letters (attrs.flatMap (attributePieces depth)) = text.toList := by
  obtain ⟨parts, hparts, htext⟩ := bind_eq_ok.mp h
  cases htext
  clear h
  induction attrs generalizing parts with
  | nil =>
    cases hparts
    rfl
  | cons a attrs ih =>
    rw [List.mapM_cons] at hparts
    obtain ⟨first, hfirst, hrest⟩ := bind_eq_ok.mp hparts
    obtain ⟨others, hothers, hcons⟩ := bind_eq_ok.mp hrest
    cases hcons
    rw [List.flatMap_cons, letters_append, letters_attributePieces hfirst, ih others hothers, List.map_cons,
      String.join_cons, String.toList_append, String.toList_append, String.toList_append]

mutual
theorem letters_pieces : (n : Node) → (depth : Nat) → (raw : Bool) → (text : String) →
    renderNode template depth raw n = .ok text → letters (pieces depth raw n) = text.toList
  | .literal k v, depth, raw, text, h => by
    rw [renderNode] at h
    cases h
    simp [pieces, letters, Piece.letters]
  | .element t cs, depth, raw, text, h => by
    rw [renderNode] at h
    obtain ⟨attrs, hattrs, h⟩ := bind_eq_ok.mp h
    simp only [pieces, letters_append, letters_attributes hattrs]
    by_cases hvoid : (cs.isEmpty && voidElements.contains t.name) = true
    · rw [if_pos hvoid] at h ⊢
      cases h
      simp [letters, Piece.letters]
    · rw [if_neg hvoid] at h ⊢
      obtain ⟨inner, hinner, h⟩ := bind_eq_ok.mp h
      cases h
      rw [letters_append, letters_piecesList cs _ _ _ hinner]
      simp [letters, Piece.letters]
  | .slot k r, depth, raw, text, h => by
    rw [renderNode] at h
    cases h
    simp [pieces, letters, Piece.letters]
  | .block k r t, depth, raw, text, h => by
    rw [renderNode] at h
    obtain ⟨⟨before, after⟩, hblock, h⟩ := bind_eq_ok.mp h
    obtain ⟨inner, hinner, h⟩ := bind_eq_ok.mp h
    cases hblock
    cases h
    rw [pieces, letters_append, letters_append, letters_pieces t _ _ _ hinner]
    simp [letters, Piece.letters]
  | .content, depth, raw, text, h => by
    rw [renderNode] at h
    cases h
    simp [pieces, letters, Piece.letters]
  | .foreign, _, _, _, h => by
    rw [renderNode] at h
    cases h

theorem letters_piecesList : (ns : List Node) → (depth : Nat) → (raw : Bool) → (text : String) →
    renderNodes template depth raw ns = .ok text → letters (piecesList depth raw ns) = text.toList
  | [], _, _, _, h => by
    rw [renderNodes] at h
    cases h
    rw [piecesList]
    rfl
  | n :: rest, depth, raw, text, h => by
    rw [renderNodes] at h
    obtain ⟨first, hfirst, h⟩ := bind_eq_ok.mp h
    obtain ⟨others, hothers, h⟩ := bind_eq_ok.mp h
    cases h
    rw [piecesList, letters_append, letters_pieces n _ _ _ hfirst, letters_piecesList rest _ _ _ hothers,
      String.toList_append]
end

theorem body?_page (s : String) : [Piece.page s].filterMap Piece.body? = [] :=
  rfl

theorem body?_attributePieces (depth : Nat) (a : Attribute) :
    (attributePieces depth a).filterMap Piece.body? = attributeActions depth a := by
  cases a <;> rfl

theorem body?_attributes (depth : Nat) (attrs : List Attribute) :
    (attrs.flatMap (attributePieces depth)).filterMap Piece.body? = attrs.flatMap (attributeActions depth) := by
  induction attrs with
  | nil => rfl
  | cons a attrs ih =>
    rw [List.flatMap_cons, List.filterMap_append, body?_attributePieces, ih, List.flatMap_cons]

mutual
theorem body?_pieces : (n : Node) → (depth : Nat) → (raw : Bool) →
    (pieces depth raw n).filterMap Piece.body? = actions depth n
  | .literal k v, depth, raw => by
    rw [pieces, actions]
    rfl
  | .element t cs, depth, raw => by
    rw [pieces, actions]
    simp only [List.filterMap_append, body?_attributes, body?_page, List.nil_append]
    by_cases hvoid : (cs.isEmpty && voidElements.contains t.name) = true
    · rw [if_pos hvoid]
      rw [Bool.and_eq_true, List.isEmpty_iff] at hvoid
      rw [hvoid.1, actionsList]
      rfl
    · rw [if_neg hvoid, List.filterMap_append, body?_piecesList cs, body?_page, List.append_nil]
  | .slot k r, depth, raw => by
    rw [pieces, actions]
    rfl
  | .block k r t, depth, raw => by
    rw [pieces, actions, List.filterMap_append, List.filterMap_append, body?_pieces t, List.append_assoc]
    rfl
  | .content, depth, raw => by
    rw [pieces, actions]
    rfl
  | .foreign, depth, raw => by
    rw [pieces, actions]
    rfl

theorem body?_piecesList : (ns : List Node) → (depth : Nat) → (raw : Bool) →
    (piecesList depth raw ns).filterMap Piece.body? = actionsList depth ns
  | [], _, _ => by
    rw [piecesList, actionsList]
    rfl
  | n :: rest, depth, raw => by
    rw [piecesList, actionsList, List.filterMap_append, body?_pieces n, body?_piecesList rest]
end

end Stencil.Hugo
