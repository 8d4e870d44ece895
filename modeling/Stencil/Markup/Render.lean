import Stencil.Failure
import Stencil.Node.Basic

namespace Stencil

structure Dialect where
  slot : (depth : Nat) → SlotKind → Reference → Except Failure String
  block : (depth : Nat) → BlockKind → Reference → Except Failure (String × String)
  content : Except Failure String
  slotAttr : (depth : Nat) → (name : String) → Reference → Except Failure String
  optionalAttr : (depth : Nat) → (name : String) → Reference → Except Failure String

namespace Markup

def voidElements : List String :=
  ["area", "base", "br", "col", "embed", "hr", "img", "input", "link", "meta", "param", "source",
   "track", "wbr"]

def rawTextElements : List String := ["script", "style"]

def escapeTextChar : Char → String
  | '&' => "&amp;"
  | '<' => "&lt;"
  | '>' => "&gt;"
  | c => String.singleton c

def escapeValueChar : Char → String
  | '"' => "&quot;"
  | '\x27' => "&#x27;"
  | c => escapeTextChar c

def escapeText (s : String) : String :=
  String.join (s.toList.map escapeTextChar)

def escapeValue (s : String) : String :=
  String.join (s.toList.map escapeValueChar)

def renderLiteral (rawText : Bool) (kind : LiteralKind) (value : String) : String :=
  match kind with
  | .text => if rawText then value else escapeText value
  | .doctype => "<!DOCTYPE " ++ value ++ ">"
  | .comment => "<!--" ++ value ++ "-->"
  | .cdata => "<![CDATA[" ++ value ++ "]]>"

def renderAttribute (d : Dialect) (depth : Nat) : Attribute → Except Failure String
  | .fixed n v => .ok (n ++ "=\"" ++ escapeValue v ++ "\"")
  | .slot n r => d.slotAttr depth n r
  | .optional n r => d.optionalAttr depth n r
  | .foreign => .error (.noRenderRule "Unknown")

def renderAttributes (d : Dialect) (depth : Nat) (attrs : List Attribute) :
    Except Failure String := do
  let parts ← attrs.mapM (renderAttribute d depth)
  return String.join (parts.map (" " ++ ·))

mutual
def renderNode (d : Dialect) (depth : Nat) (rawText : Bool) : Node → Except Failure String
  | .element t cs => do
    let attrs ← renderAttributes d depth t.attrs
    let opening := "<" ++ t.name ++ attrs ++ ">"
    if cs.isEmpty && voidElements.contains t.name then return opening
    else
      let inner ← renderNodes d depth (rawTextElements.contains t.name) cs
      return opening ++ inner ++ "</" ++ t.name ++ ">"
  | .literal k v => .ok (renderLiteral rawText k v)
  | .slot k r => d.slot depth k r
  | .block k r t => do
    let (before, after) ← d.block depth k r
    let inner ← renderNode d r.length false t
    return before ++ inner ++ after
  | .content => d.content
  | .foreign => .error (.noRenderRule Node.foreign.kindName)

def renderNodes (d : Dialect) (depth : Nat) (rawText : Bool) : List Node → Except Failure String
  | [] => .ok ""
  | n :: rest => do
    let first ← renderNode d depth rawText n
    let others ← renderNodes d depth rawText rest
    return first ++ others
end

def SlotKind.phrase : SlotKind → String
  | .plain => "a variable"
  | .markdown => "a markdown variable"
  | .inlineMarkdown => "an inline markdown variable"
  | .html => "an html variable"

def BlockKind.phrase : BlockKind → String
  | .conditional => "a conditional"
  | .loop => "a loop"

def plain : Dialect where
  slot _ k _ := .error (.notPlain (SlotKind.phrase k))
  block _ k _ := .error (.notPlain (BlockKind.phrase k))
  content := .error (.notPlain "a content placeholder")
  slotAttr _ _ _ := .error (.notPlain "a variable attribute")
  optionalAttr _ _ _ := .error (.notPlain "a conditional attribute")

def render (nodes : List Node) : Except Failure String :=
  renderNodes plain 0 false nodes

end Markup

end Stencil
