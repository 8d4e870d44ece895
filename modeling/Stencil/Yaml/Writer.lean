import Stencil.Text.Quoted
import Stencil.Value
import Stencil.Yaml.Scalar

namespace Stencil.Yaml

def width : Nat := 80

def maxKeyLength : Nat := 122

structure Output where
  text : String := ""
  column : Nat := 0
  spaced : Bool := true
  fresh : Bool := true

namespace Output

def write (o : Output) (s : String) : Output :=
  { o with text := o.text ++ s, column := o.column + s.length }

def lineBreak (o : Output) (s : String) : Output :=
  { text := o.text ++ s, column := 0, spaced := true, fresh := true }

def blanks (n : Nat) : String := String.ofList (List.replicate n ' ')

def indent (o : Output) (n : Nat) : Output :=
  let o := if !o.fresh || n < o.column || (o.column == n && !o.spaced) then o.lineBreak "\n" else o
  if o.column < n then { o with text := o.text ++ blanks (n - o.column), column := n, spaced := true }
  else o

def mark (o : Output) (s : String) (needsSpace : Bool) (spaced fresh : Bool := false) : Output :=
  let o := o.write (if o.spaced || !needsSpace then s else " " ++ s)
  { o with spaced, fresh := o.fresh && fresh }

end Output

inductive RunKind
  | spaces | breaks | quote | word
  deriving DecidableEq

def runKind (c : Char) : RunKind :=
  if c == ' ' then .spaces else if isBreak c then .breaks else if c == '\x27' then .quote else .word

def runs (cs : List Char) : List (RunKind × List Char) :=
  cs.foldr (fun c acc => match acc with
    | (k, run) :: rest =>
      if runKind c = k && k ≠ .quote then (k, c :: run) :: rest else (runKind c, [c]) :: acc
    | [] => [(runKind c, [c])]) []

def writeRun (indent : Nat) (fold : Bool) (o : Output) (inner : Bool) :
    RunKind × List Char → Output
  | (.spaces, run) =>
    if run.length == 1 && width < o.column && fold && inner then o.indent indent
    else o.write (String.ofList run)
  | (.breaks, run) =>
    let o := if run.head? == some '\n' then o.lineBreak "\n" else o
    (run.foldl (fun o c => o.lineBreak (String.singleton c)) o).indent indent
  | (.quote, _) => o.write "''"
  | (.word, run) => o.write (String.ofList run)

def writeRuns (indent : Nat) (fold : Bool) (o : Output) (first : Bool) :
    List (RunKind × List Char) → Output
  | [] => o
  | r :: rest => writeRuns indent fold (writeRun indent fold o (!first && !rest.isEmpty) r) false rest

def writeSingle (indent : Nat) (fold : Bool) (o : Output) (s : String) : Output :=
  (writeRuns indent fold (o.mark "'" true) true (runs s.toList)).mark "'" false

def writePlain (indent : Nat) (fold : Bool) (o : Output) (s : String) : Output :=
  if s.isEmpty then o
  else
    let o := if o.spaced then o else o.write " "
    let o := { o with spaced := false, fresh := false }
    (runs s.toList).foldl (fun o r => match r with
      | (.spaces, run) =>
        if run.length == 1 && width < o.column && fold then
          { o.indent indent with spaced := false, fresh := false }
        else o.write (String.ofList run)
      | (_, run) => o.write (String.ofList run)) o

def upperHex (width n : Nat) : String :=
  String.ofList ((Text.hexDigits width n).map Char.toUpper)

def namedEscape? (c : Char) : Option Char :=
  match c.toNat with
  | 0x00 => some '0'
  | 0x07 => some 'a'
  | 0x08 => some 'b'
  | 0x09 => some 't'
  | 0x0a => some 'n'
  | 0x0b => some 'v'
  | 0x0c => some 'f'
  | 0x0d => some 'r'
  | 0x1b => some 'e'
  | 0x22 => some '"'
  | 0x5c => some '\\'
  | 0x85 => some 'N'
  | 0xa0 => some '_'
  | 0x2028 => some 'L'
  | 0x2029 => some 'P'
  | _ => none

def isVerbatim (c : Char) : Bool :=
  let n := c.toNat
  !(n == 0x22 || n == 0x5c || n == 0x85 || n == 0x2028 || n == 0x2029 || n == 0xfeff) &&
    ((0x20 ≤ n && n ≤ 0x7e) || (0xa0 ≤ n && n ≤ 0xd7ff) || (0xe000 ≤ n && n ≤ 0xfffd))

def escape (c : Char) : String :=
  let n := c.toNat
  match namedEscape? c with
  | some e => "\\" ++ String.singleton e
  | none =>
    if n ≤ 0xff then "\\x" ++ upperHex 2 n
    else if n ≤ 0xffff then "\\u" ++ upperHex 4 n
    else "\\U" ++ upperHex 8 n

def writeDoubleFrom (indent : Nat) (fold : Bool) (o : Output) (pending : List Char) (first : Bool) :
    List Char → Output
  | [] => o.write (String.ofList pending.reverse)
  | c :: rest =>
    let verbatim := isVerbatim c
    let o := if verbatim then o else (o.write (String.ofList pending.reverse)).write (escape c)
    let pending := if verbatim then pending else []
    let reach := if verbatim then o.column + pending.length else o.column - 1
    let splits := !first && !rest.isEmpty && (c == ' ' || pending.isEmpty || !verbatim) &&
      width < reach && fold
    if splits then
      let o := (o.write (String.ofList pending.reverse ++ "\\")).indent indent
      let o := { o with spaced := false, fresh := false }
      let next := if verbatim then some c else rest.head?
      let o := if next == some ' ' then o.write "\\" else o
      writeDoubleFrom indent fold o (if verbatim then [c] else []) false rest
    else writeDoubleFrom indent fold o (if verbatim then c :: pending else []) false rest

def writeDouble (indent : Nat) (fold : Bool) (o : Output) (s : String) : Output :=
  (writeDoubleFrom indent fold (o.mark "\"" true) [] true s.toList).mark "\"" false

def writeText (indent : Nat) (isKey : Bool) (o : Output) (s : String) : Output :=
  match style isKey s with
  | .plain => writePlain indent (!isKey) o s
  | .single => writeSingle indent (!isKey) o s
  | .double => writeDouble indent (!isKey) o s

def isSimpleKey (key : String) : Bool :=
  let a := analyze key
  key.length ≤ maxKeyLength && !a.empty && !a.multiline

def sortFields (fields : List (String × Value)) : List (String × Value) :=
  fields.mergeSort fun x y => decide (x.1 ≤ y.1)

mutual
def sorted : Value → Value
  | .map fields => .map (sortFields (sortedFields fields))
  | .list items => .list (sortedItems items)
  | v => v

def sortedItems : List Value → List Value
  | [] => []
  | v :: rest => sorted v :: sortedItems rest

def sortedFields : List (String × Value) → List (String × Value)
  | [] => []
  | (k, v) :: rest => (k, sorted v) :: sortedFields rest
end

def deeper (around : Option Nat) : Nat :=
  match around with
  | none => 0
  | some n => n + 2

def foldColumn (around : Option Nat) : Nat :=
  match around with
  | none => 2
  | some n => n + 2

mutual
def writeValue (around : Option Nat) (inMapping : Bool) (o : Output) : Value → Output
  | .null => writePlain 0 false o "null"
  | .bool b => writePlain 0 false o (if b then "true" else "false")
  | .int n => writePlain 0 false o (toString n)
  | .text s => writeText (foldColumn around) false o s
  | .list [] => (o.mark "[" true true).mark "]" false
  | .list items =>
    let column := if inMapping && !o.fresh then around.getD 0 else deeper around
    writeItems column o items
  | .map [] => (o.mark "\x7b" true true).mark "\x7d" false
  | .map fields => writeFields (deeper around) o fields

def writeItems (column : Nat) (o : Output) : List Value → Output
  | [] => o
  | v :: rest =>
    let o := (o.indent column).mark "-" true false true
    writeItems column (writeValue (some column) false o v) rest

def writeFields (column : Nat) (o : Output) : List (String × Value) → Output
  | [] => o
  | (k, v) :: rest =>
    let o := o.indent column
    let o :=
      if isSimpleKey k then (writeText (column + 2) true o k).mark ":" false
      else
        let o := writeText (column + 2) false (o.mark "?" true false true) k
        (o.indent column).mark ":" true false true
    writeFields column (writeValue (some column) true o v) rest
end

def document (v : Value) : String :=
  ((writeValue none false {} (sorted v)).indent 0).text

end Stencil.Yaml
