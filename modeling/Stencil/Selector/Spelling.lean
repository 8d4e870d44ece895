import Stencil.Selector.Basic
import Stencil.Text.Digit

namespace Stencil.Selector

open Text

def isSpace : Char → Bool := isMarkupBlank

def isCombinatorMark (c : Char) : Bool := c == ',' || c == '+' || c == '>' || c == '~'

def afterComment? : List Char → Option (List Char)
  | '/' :: '*' :: rest => go rest
  | _ => none
where
  go : List Char → Option (List Char)
    | '*' :: '/' :: rest => some rest
    | _ :: rest => go rest
    | [] => none

def skipSpaceFuel : Nat → List Char → List Char
  | 0, cs => cs
  | fuel + 1, cs =>
    match cs with
    | c :: rest =>
      if isSpace c then skipSpaceFuel fuel rest
      else match afterComment? cs with
        | some rest => skipSpaceFuel fuel rest
        | none => cs
    | [] => []

def skipSpace (cs : List Char) : List Char := skipSpaceFuel cs.length cs

def trimEnd : List Char → List Char
  | [] => []
  | c :: rest => if (skipSpace (c :: rest)).isEmpty then [] else c :: trimEnd rest

def isNameStart (c : Char) : Bool := c.isAlpha || c == '_' || 0xa0 ≤ c.toNat

def isNameChar (c : Char) : Bool := isNameStart c || c.isDigit || c == '-'

def dropOneSpace : List Char → List Char
  | '\r' :: '\n' :: rest => rest
  | c :: rest => if isSpace c then rest else c :: rest
  | [] => []

def escaped? (cs : List Char) : Option (Char × List Char) :=
  let digits := (cs.take 6).takeWhile fun c => (hexValue? c).isSome
  if !digits.isEmpty then
    let n := digits.foldl (fun n c => n * 16 + (hexValue? c).getD 0) 0
    some (if n = 0 then '\ufffd' else Char.ofNat n, dropOneSpace (cs.drop digits.length))
  else match cs with
    | c :: rest => if c == '\r' || c == '\n' || c == '\x0c' then none else some (c, rest)
    | [] => some ('\ufffd', [])

def nameRest (acc : List Char) : Nat → List Char → List Char × List Char
  | 0, cs => (acc.reverse, cs)
  | fuel + 1, cs =>
    match cs with
    | '\\' :: rest =>
      match escaped? rest with
      | some (c, rest) => nameRest (c :: acc) fuel rest
      | none => (acc.reverse, cs)
    | c :: rest => if isNameChar c then nameRest (c :: acc) fuel rest else (acc.reverse, cs)
    | [] => (acc.reverse, [])

def name? (cs : List Char) : Option (String × List Char) :=
  let (lead, body) := match cs with
    | '-' :: rest => (['-'], rest)
    | _ => ([], cs)
  let finish (acc : List Char) (rest : List Char) :=
    let (n, rest) := nameRest acc rest.length rest
    some (String.ofList n, rest)
  match body with
  | '-' :: rest => if lead.isEmpty then none else finish ['-', '-'] rest
  | '\\' :: rest => (escaped? rest).bind fun (c, rest) => finish (c :: lead) rest
  | c :: rest => if isNameStart c then finish (c :: lead) rest else none
  | [] => none

def quotedBody (mark : Char) (acc : List Char) : Nat → List Char → Option (String × List Char)
  | 0, _ => none
  | fuel + 1, cs =>
    match cs with
    | '\\' :: '\r' :: '\n' :: rest => quotedBody mark acc fuel rest
    | '\\' :: c :: rest =>
      if c == '\n' || c == '\r' || c == '\x0c' then quotedBody mark acc fuel rest
      else match escaped? (c :: rest) with
        | some (c, rest) => quotedBody mark (c :: acc) fuel rest
        | none => none
    | c :: rest =>
      if c == mark then some (String.ofList acc.reverse, rest)
      else if c == '\r' || c == '\n' || c == '\x0c' then none
      else quotedBody mark (c :: acc) fuel rest
    | [] => none

def names (acc : String) : Nat → List Char → String × List Char
  | 0, cs => (acc, cs)
  | fuel + 1, cs =>
    match name? cs with
    | some (n, rest) => names (acc ++ n) fuel rest
    | none => (acc, cs)

def attributeText? (cs : List Char) : Option (String × List Char) :=
  match cs with
  | '"' :: rest => quotedBody '"' [] (rest.length + 1) rest
  | '\x27' :: rest => quotedBody '\x27' [] (rest.length + 1) rest
  | _ => (name? cs).map fun (n, rest) => names n rest.length rest

def qualified? (cs : List Char) : Option (String × List Char) :=
  let star? (cs : List Char) : Option (String × List Char) := match cs with
    | '*' :: rest => some ("*", rest)
    | _ => name? cs
  let behindBar := match cs with
    | '|' :: rest => star? rest
    | _ => (star? cs).bind fun (_, rest) => match rest with
      | '|' :: rest => star? rest
      | _ => none
  behindBar.or (star? cs)

def comparison? : List Char → Option (Comparison × Bool × List Char)
  | '=' :: rest => some (.equals, false, rest)
  | '!' :: '=' :: rest => some (.equals, true, rest)
  | '~' :: '=' :: rest => some (.word, false, rest)
  | '|' :: '=' :: rest => some (.dashed, false, rest)
  | '^' :: '=' :: rest => some (.startsWith, false, rest)
  | '$' :: '=' :: rest => some (.endsWith, false, rest)
  | '*' :: '=' :: rest => some (.contains, false, rest)
  | _ => none

def closed? (mark : Char) (cs : List Char) : Option (List Char) :=
  match skipSpace cs with
  | c :: rest => if c == mark then some rest else none
  | [] => none

def digits (cs : List Char) : List Char := cs.takeWhile Char.isDigit

def natOf (cs : List Char) : Nat := cs.foldl (fun n c => n * 10 + (c.toNat - 48)) 0

def formula? (cs : List Char) : Option ((Int × Int) × List Char) :=
  let word (w : String) : Option (List Char) :=
    if lowerBasic (String.ofList (cs.take w.length)) == w then some (cs.drop w.length) else none
  let (sign, body) : Int × List Char := match cs with
    | '-' :: rest => (-1, rest)
    | '+' :: rest => (1, rest)
    | _ => (1, cs)
  let ds := digits body
  let afterDigits := body.drop ds.length
  match afterDigits with
  | n :: rest =>
    if n == 'n' || n == 'N' then
      let step := sign * (if ds.isEmpty then 1 else natOf ds)
      let bare := some ((step, 0), rest)
      match skipSpace rest with
      | s :: more =>
        if s == '+' || s == '-' then
          let more := skipSpace more
          let bs := digits more
          if bs.isEmpty then bare
          else some ((step, if s == '-' then -(natOf bs : Int) else natOf bs), more.drop bs.length)
        else bare
      | [] => bare
    else if ds.isEmpty then
      match word "even", word "odd" with
      | some rest, _ => some ((2, 0), rest)
      | _, some rest => some ((2, 1), rest)
      | none, none => none
    else some ((0, sign * natOf ds), afterDigits)
  | [] => if ds.isEmpty then none else some ((0, sign * natOf ds), [])

def afterOf? (cs : List Char) : Option (List Char) :=
  match skipSpace cs with
  | o :: f :: rest =>
    if (o == 'o' || o == 'O') && (f == 'f' || f == 'F') && (skipSpace rest).length < rest.length &&
        (skipSpace cs).length < cs.length then some (skipSpace rest)
    else none
  | _ => none

end Stencil.Selector
