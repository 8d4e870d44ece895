import Stencil.Markup.Token.Scan

/-!
The tree of a marked-up text. No tag is implied: an element stays open up to the end tag of its name or
of an element around it. A void element is closed at once, and one end tag that follows for its name
is passed over.
-/

namespace Stencil.Markup

open Text

def closedAtOnce : List String :=
  ["area", "base", "br", "col", "embed", "hr", "img", "input", "keygen", "link", "menuitem", "meta",
   "param", "source", "track", "wbr", "basefont", "bgsound", "command", "frame", "image", "isindex",
   "nextid", "spacer"]

def keepsBlanks : List String := ["pre", "textarea"]

structure OpenElement where
  tag : Tag
  children : List Node := []

structure Builder where
  open_ : List OpenElement := []
  roots : List Node := []
  pending : List (List Char) := []
  closedVoids : List String := []

namespace Builder

def add (b : Builder) (n : Node) : Builder :=
  match b.open_ with
  | top :: below => { b with open_ := { top with children := n :: top.children } :: below }
  | [] => { b with roots := n :: b.roots }

def collapse (b : Builder) (s : List Char) : String :=
  if s.all isMarkupBlank && !(b.open_.any fun e => keepsBlanks.contains e.tag.name) then
    if s.contains '\n' then "\n" else " "
  else String.ofList s

def flushText (b : Builder) : Builder :=
  if b.pending.isEmpty then b
  else
    let s := b.pending.reverse.flatten
    { b with pending := [] }.add (.text (b.collapse s))

def addLiteral (b : Builder) (kind : LiteralKind) (value : String) : Builder :=
  let b := b.flushText
  let value := b.collapse value.toList
  match kind with
  | .doctype =>
    let value := strip value
    b.add (.literal .doctype (if value.isEmpty then "html" else value))
  | kind => b.add (.literal kind value)

def closeTop (b : Builder) : Builder :=
  match b.open_ with
  | top :: below => { b with open_ := below }.add (.element top.tag top.children.reverse)
  | [] => b

def closeMany : Nat → Builder → Builder
  | 0, b => b
  | n + 1, b => closeMany n b.closeTop

def closeUpTo (b : Builder) (name : String) : Builder :=
  let b := b.flushText
  let inner := (b.open_.takeWhile fun e => e.tag.name != name).length
  if inner < b.open_.length then closeMany (inner + 1) b else b

def endTag (b : Builder) (name : String) : Builder :=
  if b.closedVoids.contains name then { b with closedVoids := b.closedVoids.erase name }
  else b.closeUpTo name

def startTag (b : Builder) (name : String) (attrs : List (String × String)) (selfClosing : Bool) :
    Builder :=
  let b := b.flushText
  let tag := Tag.ofList name (attrs.map fun (n, v) => .fixed n v)
  let b := { b with open_ := ⟨tag, []⟩ :: b.open_ }
  if selfClosing then b.endTag name
  else if closedAtOnce.contains name then
    let b := b.closeUpTo name
    { b with closedVoids := name :: b.closedVoids }
  else b

def token (b : Builder) : Token → Builder
  | .text s => if s.isEmpty then b else { b with pending := s :: b.pending }
  | .opening name attrs selfClosing => b.startTag name attrs selfClosing
  | .closing name => b.endTag name
  | .literal kind value => b.addLiteral kind value
  | .skipped => b.flushText

def finish (b : Builder) : List Node :=
  let b := b.flushText
  (closeMany b.open_.length b).roots.reverse

end Builder

def parse (s : String) : List Node :=
  ((tokens s).foldl Builder.token {}).finish

end Stencil.Markup
