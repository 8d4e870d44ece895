import Stencil.Markup.ReferenceTable
import Stencil.Text.Digit

namespace Stencil.Markup

def namedReference? (name : List Char) : Option String :=
  referenceNames.lookup (String.ofList name)

def legacyPoints : List Nat :=
  [8364, 129, 8218, 402, 8222, 8230, 8224, 8225, 710, 8240, 352, 8249, 338, 141, 381, 143, 144,
   8216, 8217, 8220, 8221, 8226, 8211, 8212, 732, 8482, 353, 8250, 339, 157, 382, 376]

def legacyPoint (n : Nat) : Nat :=
  if 128 ≤ n && n < 160 then legacyPoints.getD (n - 128) n else n

def isForbiddenPoint (n : Nat) : Bool :=
  (1 ≤ n && n ≤ 8) || n == 0xb || (0xe ≤ n && n ≤ 0x1f) || (0x7f ≤ n && n ≤ 0x9f) ||
    (0xfdd0 ≤ n && n ≤ 0xfdef) || n % 0x10000 == 0xfffe || n % 0x10000 == 0xffff

def isNoCharacter (n : Nat) : Bool :=
  (0xD800 ≤ n && n ≤ 0xDFFF) || 0x10FFFF < n

def numberOf (base : Nat) (digits : List Char) : Nat :=
  digits.foldl (fun n c => n * base + (Text.hexValue? c).getD 0) 0

def isHexDigit (c : Char) : Bool :=
  (Text.hexValue? c).isSome

def numericDigits (cs : List Char) : Nat × Nat × List Char :=
  match cs with
  | x :: rest =>
    if x == 'x' || x == 'X' then (16, 1, rest.takeWhile isHexDigit)
    else (10, 0, cs.takeWhile Char.isDigit)
  | [] => (10, 0, [])

def valuePoint (n : Nat) : List Char :=
  if n = 0 || isNoCharacter n then ['\ufffd']
  else if 128 ≤ n && n < 160 then [Char.ofNat (legacyPoint n)]
  else if isForbiddenPoint n then []
  else [Char.ofNat n]

def endsName (c : Char) : Bool :=
  c == '\t' || c == '\n' || c == '\x0c' || c == ' ' || c == '<' || c == '&' || c == '#' || c == ';'

def openEnded? (run : List Char) : Nat → Option (List Char)
  | 0 | 1 => none
  | n + 1 =>
    let name := run.take (n + 1)
    if openEndedNames.contains (String.ofList name) then
      (namedReference? name).map fun s => s.toList ++ run.drop (n + 1)
    else openEnded? run n

def valueReference (cs : List Char) : Option (List Char × Nat) :=
  match cs with
  | '#' :: rest =>
    let (base, mark, digits) := numericDigits rest
    if digits.isEmpty then none
    else
      let taken := 1 + mark + digits.length
      let semicolon := if (cs.drop taken).head? == some ';' then 1 else 0
      some (valuePoint (numberOf base digits), taken + semicolon)
  | _ =>
    let run := (cs.take 32).takeWhile fun c => !endsName c
    if run.isEmpty then none
    else
      let closed := (cs.drop run.length).head? == some ';'
      match if closed then namedReference? run else none with
      | some s => some (s.toList, run.length + 1)
      | none => (openEnded? run run.length).map fun s => (s, run.length)

def decodeFrom (acc : List Char) (skip : Nat) : List Char → List Char
  | [] => acc.reverse
  | c :: rest =>
    match skip with
    | skip + 1 => decodeFrom acc skip rest
    | 0 =>
      if c == '&' then
        match valueReference rest with
        | some (s, taken) => decodeFrom (s.reverse ++ acc) taken rest
        | none => decodeFrom ('&' :: acc) 0 rest
      else decodeFrom (c :: acc) 0 rest

def decodeValue (cs : List Char) : String :=
  String.ofList (decodeFrom [] 0 cs)

def textPoint (n : Nat) : Char :=
  if isNoCharacter n then '\ufffd' else Char.ofNat (legacyPoint n)

def textName (name : List Char) : String :=
  (namedReference? name).getD ("&" ++ String.ofList name)

end Stencil.Markup
