import Stencil.Markup.Token.Start

namespace Stencil.Markup

open Text

structure Step where
  tokens : List Token
  rest : List Char
  rawText : Option String := none
  final : Bool

def tagStep (final : Bool) (cs : List Char) (found : Option (Token × Nat)) : Step :=
  match found with
  | some (t, n) =>
    let rawText := match t with
      | .opening name _ false => if name == "script" || name == "style" then some name else none
      | _ => none
    { tokens := [t], rest := cs.drop n, rawText, final }
  | none =>
    let tail := cs.drop 1
    let n := match untilClose? tail with
      | some body => body.length + 2
      | none => (tail.takeWhile (· != '<')).length + 1
    let n := if n = cs.length && (untilClose? tail).isNone then 1 else n
    { tokens := [.text (cs.take n)], rest := cs.drop n, final := true }

def flush (cs : List Char) : Step :=
  { tokens := if cs.isEmpty then [] else [.text cs], rest := [], final := true }

def isNameEnd (c : Char) : Bool := !(c.isAlphanum || c == '-' || c == '.')

def takenName (name : List Char) (atEnd : Bool) : List Char :=
  if atEnd then ((name.reverse.dropWhile Char.isAlphanum).drop 1).reverse else name

def referenceStep (final : Bool) (rest : List Char) : Step :=
  match rest with
  | '#' :: more =>
    let (base, mark, digits) := numericDigits more
    let after := more.drop (mark + digits.length)
    let complete := !digits.isEmpty && match after with
      | c :: _ => !isHexDigit c
      | [] => false
    if complete then
      let after := if after.head? == some ';' then after.drop 1 else after
      { tokens := [.text [textPoint (numberOf base digits)]], rest := after, final }
    else if rest.contains ';' then
      if final then flush ('&' :: rest)
      else { tokens := [.text ['&', '#']], rest := more, final := true }
    else flush ('&' :: rest)
  | first :: more =>
    if first.isAlpha then
      let run := first :: more.takeWhile fun c => !isNameEnd c
      let after := rest.drop run.length
      let name := takenName run after.isEmpty
      if name.isEmpty then flush (if run.length = 1 then rest else '&' :: rest)
      else
        let after := rest.drop name.length
        let after := if after.head? == some ';' then after.drop 1 else after
        { tokens := [.text (textName name).toList], rest := after, final }
    else { tokens := [.text ['&']], rest, final }
  | [] => flush ['&']

def step (final : Bool) (cs : List Char) : Step :=
  match cs with
  | '<' :: rest =>
    match rest with
    | [] => flush cs
    | '/' :: _ => tagStep final cs (endTag? cs)
    | '?' :: _ => tagStep final cs (instruction? cs)
    | '!' :: _ => tagStep final cs (declaration? cs)
    | c :: _ =>
      if c.isAlpha then tagStep final cs (startTag? cs)
      else { tokens := [.text ['<']], rest, final }
  | '&' :: rest => referenceStep final rest
  | _ =>
    let run := cs.takeWhile fun c => !(c == '<' || c == '&')
    { tokens := [.text run], rest := cs.drop run.length, final }

def endsRawText (name : String) (cs : List Char) : Bool :=
  match cs with
  | '<' :: '/' :: _ => (properEndName? cs).any fun n => lowerBasic (String.ofList n) == name
  | _ => false

def rawStep (final : Bool) (name : String) (cs : List Char) : Step :=
  match splitAtFirst? (endsRawText name) [] cs with
  | none => { tokens := [], rest := [], rawText := some name, final }
  | some (body, rest) =>
    let close := ((untilClose? rest).getD []).length + 1
    { tokens := (if body.isEmpty then [] else [.text body]) ++ [.closing name],
      rest := rest.drop close, final }

def scan (final : Bool) (rawText : Option String) (acc : List Token) :
    Nat → List Char → List Token
  | 0, _ | _, [] => acc.reverse
  | fuel + 1, cs =>
    let s := match rawText with
      | some name => rawStep final name cs
      | none => step final cs
    scan s.final s.rawText (s.tokens.reverse ++ acc) fuel s.rest

def tokens (s : String) : List Token :=
  let cs := s.toList
  scan false none [] cs.length cs

end Stencil.Markup
