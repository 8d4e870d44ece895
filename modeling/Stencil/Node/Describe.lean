import Stencil.Failure
import Stencil.Json.Basic
import Stencil.Node.Basic

namespace Stencil

def LiteralKind.word : LiteralKind → String
  | text => "text"
  | doctype => "doctype"
  | comment => "comment"
  | cdata => "cdata"

def SlotKind.word : SlotKind → String
  | plain => "variable"
  | markdown => "markdown-variable"
  | inlineMarkdown => "inline-markdown-variable"
  | html => "html-variable"

def BlockKind.word : BlockKind → String
  | conditional => "conditional"
  | loop => "loop"

def Reference.dotted (r : Reference) : String :=
  ".".intercalate r

def Attribute.describe : Attribute → Except Failure String
  | .fixed n v => .ok (n ++ "=\"" ++ v ++ "\"")
  | .slot n r | .optional n r => .ok (n ++ "=\x7b\x7b " ++ Reference.dotted r ++ " \x7d\x7d")
  | .foreign => .error (.unsupportedAttribute "Unknown")

namespace Node

mutual
def describe (depth : Nat) : Node → Except Failure String
  | content => .ok "\x7b\x7b content \x7d\x7d"
  | slot k r => .ok (k.word ++ ": " ++ r.dotted)
  | block k r _ => .ok (k.word ++ ": " ++ r.dotted)
  | literal k v => .ok (k.word ++ ": " ++ Json.literal true v)
  | element t cs => do
    let attrs ← t.attrs.mapM Attribute.describe
    let opening := " ".intercalate (t.name :: attrs)
    let inner ← match depth, cs with
      | _, [] => .ok ""
      | 0, _ :: _ => .ok "..."
      | depth + 1, cs => (describeList depth cs).map (" ".intercalate ·)
    return "<" ++ opening ++ ">" ++ inner ++ "</" ++ t.name ++ ">"
  | foreign => .error (.unsupportedNode foreign.kindName)

def describeList (depth : Nat) : List Node → Except Failure (List String)
  | [] => .ok []
  | n :: rest => do return (← describe depth n) :: (← describeList depth rest)
end

end Node

end Stencil
