import Stencil.Proofs.Hugo.Actions
import Stencil.Proofs.Registry.Renaming
import Stencil.Proofs.Text

namespace Stencil.Hugo

inductive Operand
  | params (path : List String)
  | dot (path : List String)

def Operand.ofText (s : String) : Option Operand :=
  match (Text.splitWhere (· == '.') s.toList).map String.ofList with
  | ["", ""] => some (.dot [])
  | "" :: "Params" :: path => some (.params path)
  | "" :: path => some (.dot path)
  | _ => none

inductive Command
  | value (x : Operand)
  | content
  | block (k : BlockKind) (x : Operand)
  | close

def actionWords (body : String) : List String :=
  ((Text.splitWhere Char.isWhitespace body.toList).filter fun w => !w.isEmpty).map String.ofList

def valueFilters : List (List String) :=
  [[], ["|", "markdownify"], ["|", "safeHTML"]]

def Command.ofText (body : String) : Option Command :=
  match actionWords body with
  | ["$.Content"] => some .content
  | ["end"] => some .close
  | ["with", x] => (Operand.ofText x).map (.block .conditional)
  | ["range", x] => (Operand.ofText x).map (.block .loop)
  | x :: filter => if filter ∈ valueFilters then (Operand.ofText x).map .value else none
  | [] => none

inductive Item
  | page (s : String)
  | value (x : Operand)
  | content
  | block (k : BlockKind) (x : Operand) (body : List Item)

def Command.enter : Command → List (List Item) → Option (List (List Item))
  | .value x, row :: rows => some ((.value x :: row) :: rows)
  | .content, row :: rows => some ((.content :: row) :: rows)
  | .block k x, inner :: row :: rows => some ((.block k x inner :: row) :: rows)
  | .close, rows => some ([] :: rows)
  | _, _ => none

def nest : Piece → List (List Item) → Option (List (List Item))
  | .page s, row :: rows => some ((.page s :: row) :: rows)
  | .page _, [] => none
  | .action body, rows => (Command.ofText body).bind fun c => c.enter rows

def Item.ofPieces (ps : List Piece) : Option (List Item) :=
  match ps.foldrM nest [[]] with
  | some [items] => some items
  | _ => none

structure Reading where
  passes : List Nat
  value : Option Value

inductive Event
  | page (s : String)
  | value (r : Reading)
  | content
  | asked (k : BlockKind) (r : Reading)

def Event.reading? : Event → Option Reading
  | value r => some r
  | asked _ r => some r
  | _ => none

def Operand.value? (record : Fields) (dot : Option Value) : Operand → Option Value
  | .params path => (Value.map record).at? (path.map .key)
  | .dot path => dot.bind fun v => v.at? (path.map .key)

def isTruthy : Option Value → Bool
  | none => false
  | some .null => false
  | some (.bool b) => b
  | some (.text s) => !s.isEmpty
  | some (.list items) => !items.isEmpty
  | some (.map fields) => !fields.isEmpty
  | some (.int n) => n != 0

def itemsOf : Option Value → List Value
  | some (.list items) => items
  | _ => []

mutual
def run (record : Fields) (passes : List Nat) (dot : Option Value) : Item → List Event
  | .page s => [.page s]
  | .value x => [.value ⟨passes, x.value? record dot⟩]
  | .content => [.content]
  | .block .conditional x body =>
    .asked .conditional ⟨passes, x.value? record dot⟩ ::
      if isTruthy (x.value? record dot) then runList record passes (x.value? record dot) body else []
  | .block .loop x body =>
    .asked .loop ⟨passes, x.value? record dot⟩ ::
      (List.range (itemsOf (x.value? record dot)).length).flatMap fun i =>
        runList record (passes ++ [i]) (itemsOf (x.value? record dot))[i]? body

def runList (record : Fields) (passes : List Nat) (dot : Option Value) : List Item → List Event
  | [] => []
  | i :: rest => run record passes dot i ++ runList record passes dot rest
end

def readings (events : List Event) : List Reading :=
  events.filterMap Event.reading?

def textOf : Option Value → String
  | some (.text v) => v
  | _ => ""

def Event.written : Event → String
  | .page s => s
  | .value r => Markup.escapeValue (textOf r.value)
  | _ => ""

def writtenText (events : List Event) : String :=
  String.join (events.map Event.written)

section Words

variable {word s t : String}

theorem actionWords_append : actionWords (s ++ " " ++ t) = actionWords s ++ actionWords t := by
  have hletters : (s ++ " " ++ t).toList = s.toList ++ ' ' :: t.toList := by
    simp
  rw [actionWords, hletters, Text.splitWhere_append rfl, List.filter_append, List.map_append, actionWords,
    actionWords]

theorem actionWords_empty : actionWords "" = [] :=
  rfl

theorem actionWords_around (s : String) : actionWords (" " ++ s ++ " ") = actionWords s := by
  have hend := actionWords_append (s := " " ++ s) (t := "")
  have hbegin := actionWords_append (s := "") (t := s)
  rw [actionWords_empty, List.append_nil, String.append_empty] at hend
  rw [actionWords_empty, List.nil_append, String.empty_append] at hbegin
  rw [hend, hbegin]

structure IsOperand (word : String) : Prop where
  blank : ∀ c ∈ word.toList, c.isWhitespace = false
  dotted : word.toList.head? = some '.'
  closed : '\x7d' ∉ word.toList

variable (h : IsOperand word)

include h

theorem IsOperand.append (hblank : ∀ c ∈ t.toList, c.isWhitespace = false) (hclosed : '\x7d' ∉ t.toList) :
    IsOperand (word ++ t) where
  blank := by
    rw [String.toList_append]
    exact List.forall_mem_append.mpr ⟨h.blank, hblank⟩
  dotted := by
    rw [String.toList_append, List.head?_append, h.dotted]
    rfl
  closed := by
    rw [String.toList_append, List.mem_append, not_or]
    exact ⟨h.closed, hclosed⟩

theorem IsOperand.words : actionWords word = [word] := by
  have hne : word ≠ "" := by
    rintro rfl
    cases h.dotted
  simp [actionWords, Text.splitWhere_of_forall h.blank, hne]

theorem IsOperand.words_slot (kind : SlotKind) :
    ∃ filter ∈ valueFilters, actionWords (word ++ slotFilter kind) = word :: filter := by
  have hbehind (filter : String) : actionWords (word ++ (" " ++ filter)) = word :: actionWords filter := by
    rw [← String.append_assoc, actionWords_append, h.words]
    rfl
  cases kind with
  | plain => exact ⟨[], by decide, by rw [slotFilter, String.append_empty, h.words]⟩
  | markdown | inlineMarkdown => exact ⟨["|", "markdownify"], by decide, hbehind "| markdownify"⟩
  | html => exact ⟨["|", "safeHTML"], by decide, hbehind "| safeHTML"⟩

theorem IsOperand.closed_slot (kind : SlotKind) : '\x7d' ∉ (word ++ slotFilter kind).toList := by
  rw [String.toList_append, List.mem_append, not_or]
  refine ⟨h.closed, ?_⟩
  cases kind <;> decide

theorem IsOperand.closed_block (k : BlockKind) : '\x7d' ∉ (blockWord k ++ word).toList := by
  rw [String.toList_append, List.mem_append, not_or]
  refine ⟨?_, h.closed⟩
  cases k <;> decide

end Words

namespace Command

theorem ofText_around (body : String) : ofText (" " ++ body ++ " ") = ofText body := by
  rw [ofText, actionWords_around, ofText]

theorem ofText_content : ofText "$.Content" = some .content :=
  rfl

theorem ofText_end : ofText "end" = some .close :=
  rfl

theorem ofText_dot : ofText "." = some (.value (.dot [])) :=
  rfl

variable {word : String} {x : Operand} (h : IsOperand word) (hx : Operand.ofText word = some x)

include h hx

theorem ofText_slot (kind : SlotKind) : ofText (word ++ slotFilter kind) = some (.value x) := by
  obtain ⟨filter, hfilter, hwords⟩ := h.words_slot kind
  have hdotted := h.dotted
  rw [ofText, hwords]
  -- no word that begins with a dot says what is done
  split
  case h_5 h =>
    cases h
    rw [if_pos hfilter, hx]
    rfl
  case h_6 h => cases h
  all_goals
    next h =>
      cases h
      simp at hdotted

theorem ofText_block (k : BlockKind) : ofText (blockWord k ++ word) = some (.block k x) := by
  have hbefore (s : String) : actionWords (s ++ " " ++ word) = actionWords s ++ [word] := by
    rw [actionWords_append, h.words]
  cases k with
  | conditional =>
    have hwords : actionWords (blockWord .conditional ++ word) = ["with", word] := hbefore "with"
    rw [ofText, hwords]
    simp [hx]
  | loop =>
    have hwords : actionWords (blockWord .loop ++ word) = ["range", word] := hbefore "range"
    rw [ofText, hwords]
    simp [hx]

end Command

/-- The pieces are those of the items, in whatever blocks they stand, and no action holds a closing brace. -/
structure Forms (ps : List Piece) (items : List Item) : Prop where
  nests : ∀ row rows, ps.foldrM nest (row :: rows) = some ((items ++ row) :: rows)
  closed : ∀ body ∈ ps.filterMap Piece.body?, '\x7d' ∉ body.toList

namespace Forms

variable {ps qs : List Piece} {items others : List Item}

theorem nil : Forms [] [] where
  nests _ _ := rfl
  closed := by simp

theorem append (h : Forms ps items) (h' : Forms qs others) : Forms (ps ++ qs) (items ++ others) where
  nests row rows := by
    rw [List.foldrM_append, h'.nests row rows, List.append_assoc]
    exact h.nests _ _
  closed := by
    rw [List.filterMap_append]
    exact List.forall_mem_append.mpr ⟨h.closed, h'.closed⟩

theorem page (s : String) : Forms [.page s] [.page s] where
  nests _ _ := rfl
  closed := by simp [Piece.body?]

theorem content : Forms [.action "$.Content"] [.content] where
  nests row rows := by simp [nest, Command.ofText_content, Command.enter]
  closed := by simp [Piece.body?]

theorem dot : Forms [.action "."] [.value (.dot [])] where
  nests row rows := by simp [nest, Command.ofText_dot, Command.enter]
  closed := by simp [Piece.body?]

variable {word : String} {x : Operand} (h : IsOperand word) (hx : Operand.ofText word = some x)

include h hx

theorem slot (kind : SlotKind) : Forms [.action (word ++ slotFilter kind)] [.value x] where
  nests row rows := by simp [nest, Command.ofText_slot h hx, Command.enter]
  closed := by
    intro body hbody
    cases List.mem_singleton.mp hbody
    exact h.closed_slot kind

theorem block (k : BlockKind) (hinner : Forms ps items) :
    Forms ([.action (blockWord k ++ word)] ++ (ps ++ [.action "end"])) [.block k x items] where
  nests row rows := by
    have hclose : List.foldrM nest (row :: rows) [.action "end"] = some ([] :: row :: rows) := by
      simp [nest, Command.ofText_end, Command.enter]
    rw [List.foldrM_append, List.foldrM_append, hclose]
    simp [hinner.nests [] (row :: rows), nest, Command.ofText_block h hx, Command.enter]
  closed := by
    rw [List.filterMap_append, List.filterMap_append, List.forall_mem_append, List.forall_mem_append]
    refine ⟨?_, hinner.closed, by simp [Piece.body?]⟩
    intro body hbody
    cases List.mem_singleton.mp hbody
    exact h.closed_block k

end Forms

variable {record : Fields} {passes : List Nat} {dot : Option Value} {items others : List Item}

theorem runList_append :
    runList record passes dot (items ++ others) =
      runList record passes dot items ++ runList record passes dot others := by
  induction items with
  | nil => rw [runList, List.nil_append, List.nil_append]
  | cons i items ih => rw [List.cons_append, runList, runList, ih, List.append_assoc]

theorem runList_singleton (i : Item) : runList record passes dot [i] = run record passes dot i := by
  rw [runList, runList, List.append_nil]

theorem readings_append (es fs : List Event) : readings (es ++ fs) = readings es ++ readings fs :=
  List.filterMap_append

theorem writtenText_append (es fs : List Event) :
    writtenText (es ++ fs) = writtenText es ++ writtenText fs := by
  rw [writtenText, List.map_append, String.join_append]
  rfl

end Stencil.Hugo
