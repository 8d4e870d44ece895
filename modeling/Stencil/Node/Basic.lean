/-!
The trees of pages and layouts. A page is made of literals and elements; a layout also has slots, which
every page fills with a value of its own, and blocks: templates that are present on some pages only
or repeated for each item of a list.
-/

namespace Stencil

abbrev Reference := List String

inductive LiteralKind
  | text | doctype | comment | cdata
  deriving DecidableEq

inductive SlotKind
  | plain | markdown | inlineMarkdown | html
  deriving DecidableEq

inductive BlockKind
  | conditional | loop
  deriving DecidableEq

/-- An attribute is fixed, or takes its value from a slot, or takes it from a slot and is left out
where that has no value. A foreign attribute is one that no rule is known for. -/
inductive Attribute
  | fixed (name value : String)
  | slot (name : String) (ref : Reference)
  | optional (name : String) (ref : Reference)
  | foreign
  deriving DecidableEq

namespace Attribute

def name : Attribute → String
  | fixed n _ => n
  | slot n _ => n
  | optional n _ => n
  | foreign => "unknown"

def isFixed : Attribute → Bool
  | fixed .. => true
  | _ => false

def reference? : Attribute → Option Reference
  | slot _ r => some r
  | optional _ r => some r
  | _ => none

end Attribute

structure Tag where
  name : String
  attrs : List Attribute := []

namespace Tag

def attr? (t : Tag) (name : String) : Option Attribute :=
  t.attrs.find? fun a => a.name == name

def fixedValue? (t : Tag) (name : String) : Option String :=
  match t.attr? name with
  | some (.fixed _ v) => some v
  | _ => none

def setAttr (a : Attribute) : List Attribute → List Attribute
  | [] => [a]
  | b :: rest => if a.name == b.name then a :: rest else b :: setAttr a rest

def ofList (name : String) (attrs : List Attribute) : Tag :=
  ⟨name, attrs.foldl (fun acc a => setAttr a acc) []⟩

def same (s t : Tag) : Bool :=
  s.name == t.name && s.attrs.length == t.attrs.length &&
    s.attrs.all fun a => t.attr? a.name == some a

end Tag

inductive Node
  | literal (kind : LiteralKind) (value : String)
  | element (tag : Tag) (children : List Node)
  | slot (kind : SlotKind) (ref : Reference)
  | block (kind : BlockKind) (ref : Reference) (template : Node)
  | content
  | foreign
  deriving Inhabited

namespace Node

abbrev text (s : String) : Node := literal .text s

mutual
def same : Node → Node → Bool
  | literal k v, literal k' v' => k == k' && v == v'
  | element t cs, element t' cs' => t.same t' && sameList cs cs'
  | slot k r, slot k' r' => k == k' && r == r'
  | block k r t, block k' r' t' => k == k' && r == r' && same t t'
  | content, content => true
  | foreign, foreign => true
  | _, _ => false

def sameList : List Node → List Node → Bool
  | [], [] => true
  | x :: xs, y :: ys => same x y && sameList xs ys
  | _, _ => false
end

def isElement : Node → Bool
  | element .. => true
  | _ => false

def tag? : Node → Option Tag
  | element t _ => some t
  | _ => none

def core : Node → Node
  | block _ _ t => core t
  | n => n

def kindName : Node → String
  | literal .text _ => "Text"
  | literal .doctype _ => "Doctype"
  | literal .comment _ => "Comment"
  | literal .cdata _ => "CData"
  | element .. => "Element"
  | slot .plain _ => "Variable"
  | slot .markdown _ => "MarkdownVariable"
  | slot .inlineMarkdown _ => "InlineMarkdownVariable"
  | slot .html _ => "HtmlVariable"
  | block .conditional .. => "Conditional"
  | block .loop .. => "Loop"
  | content => "Content"
  | foreign => "Unknown"

end Node

end Stencil
