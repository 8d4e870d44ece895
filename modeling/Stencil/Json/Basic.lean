import Stencil.Text.Quoted

namespace Stencil

inductive Json
  | null
  | bool (b : Bool)
  | number (spelling : String)
  | string (s : String)
  | array (items : List Json)
  | object (entries : List (String × Json))

namespace Json

open Text

def unicodeEscape (n : Nat) : List Char :=
  '\\' :: 'u' :: hexDigits 4 n

def shortEscape? : Char → Option (List Char)
  | '"' => some ['\\', '"']
  | '\\' => some ['\\', '\\']
  | '\n' => some ['\\', 'n']
  | '\r' => some ['\\', 'r']
  | '\t' => some ['\\', 't']
  | '\x08' => some ['\\', 'b']
  | '\x0c' => some ['\\', 'f']
  | _ => none

def escapeChar (asciiOnly : Bool) (c : Char) : List Char :=
  let n := c.toNat
  match shortEscape? c with
  | some e => e
  | none =>
    if n < 0x20 then unicodeEscape n
    else if !asciiOnly || n < 0x7f then [c]
    else if n < 0x10000 then unicodeEscape n
    else
      let m := n - 0x10000
      unicodeEscape (0xD800 + m / 0x400) ++ unicodeEscape (0xDC00 + m % 0x400)

def literal (asciiOnly : Bool) (s : String) : String :=
  String.ofList ('"' :: s.toList.flatMap (escapeChar asciiOnly) ++ ['"'])

def indent (depth : Nat) : String :=
  "\n" ++ String.ofList (List.replicate (2 * depth) ' ')

mutual
def pretty (depth : Nat) : Json → String
  | null => "null"
  | bool true => "true"
  | bool false => "false"
  | number spelling => spelling
  | string s => literal false s
  | array [] => "[]"
  | array items =>
    "[" ++ ",".intercalate (prettyItems (depth + 1) items) ++ indent depth ++ "]"
  | object [] => "\x7b\x7d"
  | object entries =>
    "\x7b" ++ ",".intercalate (prettyEntries (depth + 1) entries) ++ indent depth ++ "\x7d"

def prettyItems (depth : Nat) : List Json → List String
  | [] => []
  | item :: rest => (indent depth ++ pretty depth item) :: prettyItems depth rest

def prettyEntries (depth : Nat) : List (String × Json) → List String
  | [] => []
  | (key, item) :: rest =>
    (indent depth ++ literal false key ++ ": " ++ pretty depth item) :: prettyEntries depth rest
end

def text (j : Json) : String :=
  pretty 0 j

end Json

end Stencil
