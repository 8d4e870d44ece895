namespace Stencil.Yaml

inductive Style
  | plain | single | double
  deriving DecidableEq

def isDigitRun (cs : List Char) : Bool := !cs.isEmpty && cs.all Char.isDigit

def isDigitOrBar (c : Char) : Bool := c.isDigit || c == '_'

def dropSign : List Char → List Char
  | '+' :: rest => rest
  | '-' :: rest => rest
  | cs => cs

def sixtiesLength : List Char → Nat
  | ':' :: a :: b :: rest =>
    if a.isDigit && b.isDigit then if a.toNat ≤ 53 then 3 + sixtiesLength rest else 0
    else if a.isDigit then 2 + sixtiesLength (b :: rest) else 0
  | [':', a] => if a.isDigit then 2 else 0
  | _ => 0

def isExponent : List Char → Bool
  | [] => true
  | e :: s :: digits => (e == 'e' || e == 'E') && (s == '+' || s == '-') && isDigitRun digits
  | _ => false

def isIntegerText (cs : List Char) : Bool :=
  match dropSign cs with
  | '0' :: 'b' :: rest => !rest.isEmpty && rest.all fun c => c == '0' || c == '1' || c == '_'
  | '0' :: 'x' :: rest =>
    !rest.isEmpty && rest.all fun c =>
      isDigitOrBar c || ('a' ≤ c && c ≤ 'f') || ('A' ≤ c && c ≤ 'F')
  | ['0'] => true
  | '0' :: rest => rest.all fun c => ('0' ≤ c && c ≤ '7') || c == '_'
  | c :: rest =>
    let tail := rest.dropWhile isDigitOrBar
    c.isDigit && (tail.isEmpty || sixtiesLength tail == tail.length)
  | [] => false

def isFloatText (cs : List Char) : Bool :=
  let body := dropSign cs
  match body with
  | '.' :: d :: rest =>
    (body.length == cs.length && d.isDigit && isExponent (rest.dropWhile isDigitOrBar)) ||
      [".inf", ".Inf", ".INF"].contains (String.ofList body) ||
      [".nan", ".NaN", ".NAN"].contains (String.ofList cs)
  | d :: rest =>
    d.isDigit &&
      match rest.dropWhile isDigitOrBar with
      | '.' :: places => isExponent (places.dropWhile isDigitOrBar)
      | tail =>
        let n := sixtiesLength tail
        n != 0 && match tail.drop n with
          | '.' :: places => places.all isDigitOrBar
          | _ => false
  | [] => false

def shortNumber? : List Char → Option (List Char)
  | a :: b :: rest => if a.isDigit then if b.isDigit then some rest else some (b :: rest) else none
  | [a] => if a.isDigit then some [] else none
  | [] => none

def twoDigits? : List Char → Option (List Char)
  | a :: b :: rest => if a.isDigit && b.isDigit then some rest else none
  | _ => none

def expect? (c : Char) : List Char → Option (List Char)
  | d :: rest => if c == d then some rest else none
  | [] => none

def isBlankOrTab (c : Char) : Bool := c == ' ' || c == '\t'

def isTimeTail (cs : List Char) : Bool :=
  let cs := match cs with
    | '.' :: rest => rest.dropWhile Char.isDigit
    | _ => cs
  if cs.isEmpty then true
  else
    let zone := cs.dropWhile isBlankOrTab
    match zone with
    | ['Z'] => true
    | s :: rest =>
      (s == '+' || s == '-') && match shortNumber? rest with
        | some [] => true
        | some (':' :: m) => twoDigits? m == some []
        | _ => false
    | [] => false

def isTimestamp (cs : List Char) : Bool :=
  let year := cs.take 4
  isDigitRun year && year.length == 4 &&
    match expect? '-' (cs.drop 4) with
    | none => false
    | some afterYear =>
      let date := (twoDigits? afterYear).bind (expect? '-') |>.bind twoDigits?
      let clock := do
        let day ← (shortNumber? afterYear).bind (expect? '-') |>.bind shortNumber?
        let hour ← match day with
          | 'T' :: rest | 't' :: rest => some rest
          | c :: _ => if isBlankOrTab c then some (day.dropWhile isBlankOrTab) else none
          | [] => none
        let minute ← (shortNumber? hour).bind (expect? ':')
        let second ← (twoDigits? minute).bind (expect? ':')
        twoDigits? second
      date == some [] || clock.any isTimeTail

def wordsWithMeaning : List String :=
  ["yes", "Yes", "YES", "no", "No", "NO", "true", "True", "TRUE", "false", "False", "FALSE", "on",
   "On", "ON", "off", "Off", "OFF", "~", "null", "Null", "NULL", "", "<<", "=", "!", "&", "*"]

def hasOtherMeaning (s : String) : Bool :=
  let cs := s.toList
  wordsWithMeaning.contains s || isIntegerText cs || isFloatText cs || isTimestamp cs

def isBreak (c : Char) : Bool :=
  c == '\n' || c == '\x85' || c == '\u2028' || c == '\u2029'

def separates (c : Char) : Bool :=
  c == '\x00' || c == ' ' || c == '\t' || c == '\r' || isBreak c

def isOrdinary (c : Char) : Bool :=
  let n := c.toNat
  c == '\n' || (0x20 ≤ n && n ≤ 0x7e) ||
    ((n == 0x85 || (0xa0 ≤ n && n ≤ 0xd7ff) || (0xe000 ≤ n && n ≤ 0xfffd) ||
      (0x10000 ≤ n && n < 0x10ffff)) && n != 0xfeff)

def isIndicator (first afterSpace : Bool) (c : Char) (next : Option Char) : Bool :=
  let beforeSpace := (next.map separates).getD true
  if first then
    ("#,[]\x7b\x7d&*!|>'\"%@".toList.contains c || c == '\x60') ||
      ((c == '?' || c == ':' || c == '-') && beforeSpace)
  else (c == ':' && beforeSpace) || (c == '#' && afterSpace)

def hasIndicator (first afterSpace : Bool) : List Char → Bool
  | [] => false
  | c :: rest => isIndicator first afterSpace c rest.head? || hasIndicator false (separates c) rest

def meets (p q : Char → Bool) : List Char → Bool
  | a :: b :: rest => (p a && q b) || meets p q (b :: rest)
  | _ => false

structure Analysis where
  empty : Bool
  multiline : Bool
  allowPlain : Bool
  allowSingle : Bool

def analyze (s : String) : Analysis :=
  let cs := s.toList
  if cs.isEmpty then ⟨true, false, true, true⟩
  else
    let isSpace (c : Char) := c == ' '
    let edge (c : Option Char) := (c.map fun c => isSpace c || isBreak c).getD false
    let multiline := cs.any isBreak
    let unquotable := meets isSpace isBreak cs || !cs.all isOrdinary
    let indented := meets isBreak isSpace cs
    let marked := "---".toList.isPrefixOf cs || "...".toList.isPrefixOf cs || hasIndicator true true cs
    { empty := false
      multiline
      allowPlain := !(edge cs.head? || edge cs.getLast? || unquotable || indented || multiline || marked)
      allowSingle := !(unquotable || indented) }

def style (isKey : Bool) (s : String) : Style :=
  let a := analyze s
  if a.allowPlain && !hasOtherMeaning s && !(isKey && (a.empty || a.multiline)) then .plain
  else if a.allowSingle && !(isKey && a.multiline) then .single
  else .double

end Stencil.Yaml
