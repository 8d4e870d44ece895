import Stencil.Node.References

namespace Stencil.Markdown

def headings : List String := ["h1", "h2", "h3", "h4", "h5", "h6"]

def lists : List String := ["ul", "ol"]

def blocks : List String := ["p", "img"] ++ lists ++ headings

def inlines : List String := ["a", "em", "strong", "img", "br", "sup", "sub"]

def allowedAttributes (tag : String) : List String :=
  if tag == "img" then ["src", "alt"] else if tag == "a" then ["href"] else []

def flowParents : List String :=
  ["article", "aside", "blockquote", "body", "details", "div", "figure", "footer", "header", "main",
   "section", "td", "th"]

def inlineParents : List String := ["p", "li"] ++ headings

def hasAllowedAttributes (t : Tag) : Bool :=
  t.attrs.all fun a => a.isFixed && (allowedAttributes t.name).contains a.name

mutual
def isInline : Node → Bool
  | .literal .text _ => true
  | .element t cs => inlines.contains t.name && hasAllowedAttributes t && isInlineTree cs
  | _ => false

def isInlineTree : List Node → Bool
  | [] => true
  | n :: rest => isInline n && isInlineTree rest
end

def containsElement (nodes : List Node) : Bool :=
  nodes.any Node.isElement

def isListItem : Node → Bool
  | .element t cs => t.name == "li" && t.attrs.isEmpty && isInlineTree cs
  | _ => false

def isBlock : Node → Bool
  | .element t cs =>
    blocks.contains t.name && hasAllowedAttributes t &&
      if t.name == "img" then cs.isEmpty
      else if lists.contains t.name then
        let items := cs.filter fun n => !n.isBlankText
        !items.isEmpty && items.all isListItem
      else isInlineTree cs
  | _ => false

def runFrom (position last : Nat) : List Node → Nat
  | [] => last
  | n :: rest =>
    if n.isBlankText then runFrom (position + 1) last rest
    else if isBlock n then runFrom (position + 1) (position + 1) rest
    else last

def run (siblings : List Node) : Nat :=
  runFrom 0 0 siblings

def allowsBlocks (enclosing : Option Tag) : Bool :=
  match enclosing with
  | some t => flowParents.contains t.name
  | none => false

def allowsInline (enclosing : Option Tag) : Bool :=
  match enclosing with
  | some t => inlineParents.contains t.name
  | none => false

end Stencil.Markdown
