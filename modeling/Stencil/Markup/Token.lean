import Stencil.Node.Basic
import Stencil.Text.Blank
import Stencil.Text.Lower

namespace Stencil.Markup

open Text

inductive Token
  | text (s : List Char)
  | opening (name : String) (attrs : List (String × String)) (selfClosing : Bool)
  | closing (name : String)
  | literal (kind : LiteralKind) (value : String)
  | skipped

def isTagNameChar (c : Char) : Bool :=
  !(c == '\t' || c == '\n' || c == '\r' || c == '\x0c' || c == ' ' || c == '/' || c == '>' ||
    c == '\x00')

def splitAtFirst? (p : List Char → Bool) (acc : List Char) :
    List Char → Option (List Char × List Char)
  | [] => none
  | c :: rest => if p (c :: rest) then some (acc.reverse, c :: rest) else splitAtFirst? p (c :: acc) rest

def untilClose? (cs : List Char) : Option (List Char) :=
  (splitAtFirst? (fun r => r.head? == some '>') [] cs).map Prod.fst

def commentClose? : List Char → Option Nat
  | '-' :: '-' :: rest =>
    let gap := (rest.takeWhile isBlank).length
    if (rest.drop gap).head? == some '>' then some (gap + 3) else none
  | _ => none

def bracketClose? : List Char → Option Nat
  | ']' :: rest =>
    let gap := (rest.takeWhile isBlank).length
    if (rest.drop gap).head? == some '>' then some (gap + 2) else none
  | _ => none

def doubleBracketClose? : List Char → Option Nat
  | ']' :: rest =>
    let gap := (rest.takeWhile isBlank).length
    (bracketClose? (rest.drop gap)).map (· + gap + 1)
  | _ => none

def delimited? (close? : List Char → Option Nat) (cs : List Char) : Option (List Char × Nat) :=
  match splitAtFirst? (fun r => (close? r).isSome) [] cs with
  | some (body, rest) => (close? rest).map fun n => (body, body.length + n)
  | none => none

def isSectionNameChar (c : Char) : Bool :=
  c.isAlphanum || c == '-' || c == '_' || c == '.'

def markedSection? (cs : List Char) : Option (Token × Nat) :=
  let name := lowerBasic (String.ofList (cs.takeWhile isSectionNameChar))
  let close? := if ["if", "else", "endif"].contains name then bracketClose? else doubleBracketClose?
  (delimited? close? cs).map fun (body, n) =>
    let token := if lowerBasic (String.ofList (body.take 6)) == "cdata["
      then .literal .cdata (String.ofList (body.drop 6)) else .skipped
    (token, n + 3)

def looseComment? (cs : List Char) : Option (Token × Nat) :=
  (untilClose? (cs.drop 2)).map fun body => (.literal .comment (String.ofList body), body.length + 3)

def startsWithWord (word : String) (cs : List Char) : Bool :=
  lowerBasic (String.ofList (cs.take word.length)) == word

def declaration? (cs : List Char) : Option (Token × Nat) :=
  match cs.drop 2 with
  | '-' :: '-' :: rest =>
    (delimited? commentClose? rest).map fun (body, n) =>
      (.literal .comment (String.ofList body), n + 4)
  | '[' :: rest => markedSection? rest
  | rest =>
    if startsWithWord "doctype" rest then
      (untilClose? (rest.drop 7)).map fun body =>
        (.literal .doctype (String.ofList (body.drop 1)), body.length + 10)
    else looseComment? cs

def isEndNameChar (c : Char) : Bool :=
  c.isAlphanum || c == '-' || c == '.' || c == ':' || c == '_'

def properEndName? (cs : List Char) : Option (List Char) :=
  let r := (cs.drop 2).dropWhile isBlank
  let name := r.takeWhile isEndNameChar
  match name with
  | first :: _ =>
    if first.isAlpha && ((r.drop name.length).dropWhile isBlank).head? == some '>' then some name
    else none
  | [] => none

def endTag? (cs : List Char) : Option (Token × Nat) :=
  match untilClose? (cs.drop 1) with
  | none => none
  | some body =>
    match properEndName? cs with
    | some name => some (.closing (lower (String.ofList name)), body.length + 2)
    | none =>
      match cs.drop 2 with
      | '>' :: _ => some (.text [], 3)
      | first :: _ =>
        if first.isAlpha then
          let name := (cs.drop 2).takeWhile isTagNameChar
          some (.closing (lower (String.ofList name)), body.length + 2)
        else looseComment? cs
      | [] => none

def instruction? (cs : List Char) : Option (Token × Nat) :=
  (untilClose? (cs.drop 2)).map fun body => (.skipped, body.length + 3)

end Stencil.Markup
