import Stencil.Assoc
import Stencil.Json.Basic
import Stencil.Text.Digit

namespace Stencil.Json

open Text (hexValue?)

def maxDigits : Nat := 4300

def skipBlanks : List Char → List Char
  | c :: cs => if c == ' ' || c == '\t' || c == '\n' || c == '\r' then skipBlanks cs else c :: cs
  | [] => []

def hexUnit? (a b c d : Char) : Option Nat := do
  return (((← hexValue? a) * 16 + (← hexValue? b)) * 16 + (← hexValue? c)) * 16 + (← hexValue? d)

def plainEscape? : Char → Option Char
  | '"' => some '"'
  | '\\' => some '\\'
  | '/' => some '/'
  | 'b' => some '\x08'
  | 'f' => some '\x0c'
  | 'n' => some '\n'
  | 'r' => some '\r'
  | 't' => some '\t'
  | _ => none

def isHighUnit (n : Nat) : Bool := 0xD800 ≤ n && n < 0xDC00

def isLowUnit (n : Nat) : Bool := 0xDC00 ≤ n && n < 0xE000

def stringBody (acc : List Char) : List Char → Option (String × List Char)
  | [] => none
  | '"' :: rest => some (String.ofList acc.reverse, rest)
  | '\\' :: 'u' :: a :: b :: c :: d :: rest =>
    match hexUnit? a b c d, rest with
    | none, _ => none
    | some n, '\\' :: 'u' :: a' :: b' :: c' :: d' :: rest' =>
      match hexUnit? a' b' c' d' with
      | some m =>
        if isHighUnit n && isLowUnit m then
          stringBody (Char.ofNat (0x10000 + (n - 0xD800) * 0x400 + (m - 0xDC00)) :: acc) rest'
        else stringBody (Char.ofNat n :: acc) ('\\' :: 'u' :: a' :: b' :: c' :: d' :: rest')
      | none => none
    | some n, rest => stringBody (Char.ofNat n :: acc) rest
  | '\\' :: e :: rest =>
    match plainEscape? e with
    | some c => stringBody (c :: acc) rest
    | none => none
  | c :: rest => if c.toNat < 0x20 then none else stringBody (c :: acc) rest
  termination_by cs => cs.length

def number? (cs : List Char) : Option (String × List Char) :=
  let (sign, body) := match cs with
    | '-' :: rest => (['-'], rest)
    | _ => ([], cs)
  let whole := match body with
    | '0' :: _ => ['0']
    | _ => body.takeWhile Char.isDigit
  if whole.isEmpty then none
  else
    let rest := body.drop whole.length
    let places := match rest with
      | '.' :: tail =>
        let digits := tail.takeWhile Char.isDigit
        if digits.isEmpty then [] else '.' :: digits
      | _ => []
    let rest := rest.drop places.length
    let power := match rest with
      | e :: tail =>
        if e == 'e' || e == 'E' then
          let (mark, tail) := match tail with
            | '+' :: t => (['+'], t)
            | '-' :: t => (['-'], t)
            | _ => ([], tail)
          let digits := tail.takeWhile Char.isDigit
          if digits.isEmpty then [] else e :: mark ++ digits
        else []
      | [] => []
    if places.isEmpty && power.isEmpty && maxDigits < whole.length then none
    else some (String.ofList (sign ++ whole ++ places ++ power), rest.drop power.length)

def word? (word : String) (cs : List Char) : Option (List Char) :=
  if word.toList.isPrefixOf cs then some (cs.drop word.length) else none

mutual
def value? : Nat → List Char → Option (Json × List Char)
  | 0, _ => none
  | fuel + 1, cs =>
    match cs with
    | '"' :: rest => (stringBody [] rest).map fun (s, rest) => (string s, rest)
    | '[' :: rest =>
      match skipBlanks rest with
      | ']' :: rest => some (array [], rest)
      | rest => items? fuel [] rest
    | '\x7b' :: rest =>
      match skipBlanks rest with
      | '\x7d' :: rest => some (object [], rest)
      | rest => entries? fuel [] rest
    | _ =>
      match word? "null" cs, word? "true" cs, word? "false" cs with
      | some rest, _, _ => some (null, rest)
      | _, some rest, _ => some (bool true, rest)
      | _, _, some rest => some (bool false, rest)
      | none, none, none =>
        match number? cs with
        | some (spelling, rest) => some (number spelling, rest)
        | none =>
          ["NaN", "Infinity", "-Infinity"].findSome? fun word =>
            (word? word cs).map fun rest => (number word, rest)

def items? : Nat → List Json → List Char → Option (Json × List Char)
  | 0, _, _ => none
  | fuel + 1, acc, cs =>
    match value? fuel cs with
    | none => none
    | some (item, rest) =>
      match skipBlanks rest with
      | ',' :: rest => items? fuel (item :: acc) (skipBlanks rest)
      | ']' :: rest => some (array (item :: acc).reverse, rest)
      | _ => none

def entries? : Nat → List (String × Json) → List Char → Option (Json × List Char)
  | 0, _, _ => none
  | fuel + 1, acc, cs =>
    match cs with
    | '"' :: rest =>
      match stringBody [] rest with
      | none => none
      | some (key, rest) =>
        match skipBlanks rest with
        | ':' :: rest =>
          match value? fuel (skipBlanks rest) with
          | none => none
          | some (item, rest) =>
            match skipBlanks rest with
            | ',' :: rest => entries? fuel ((key, item) :: acc) (skipBlanks rest)
            | '\x7d' :: rest => some (object (Assoc.ofList ((key, item) :: acc).reverse), rest)
            | _ => none
        | _ => none
    | _ => none
end

/-- The document that a text spells, if it spells one. Every call below the first follows at least
one character, so the length of the text bounds their nesting. -/
def ofText? (s : String) : Option Json :=
  let cs := s.toList
  match value? (2 * cs.length + 2) (skipBlanks cs) with
  | some (j, rest) => if (skipBlanks rest).isEmpty then some j else none
  | none => none

end Stencil.Json
