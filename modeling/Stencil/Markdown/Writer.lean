import Stencil.Markdown.Detect
import Stencil.Markup.Render
import Stencil.Markup.Tree
import Stencil.Signature

namespace Stencil.Markdown

open Text

def isGap (c : Char) : Bool := c == '\t' || c == ' ' || c == '\r' || c == '\n'

def isLineEnd (c : Char) : Bool := c == '\r' || c == '\n'

def squeeze (cs : List Char) : List Char :=
  (cs.foldr (fun c (acc : List Char) =>
    if isGap c then
      let mark := if isLineEnd c then '\n' else ' '
      match acc with
      | '\n' :: _ => acc
      | ' ' :: rest => mark :: rest
      | _ => mark :: acc
    else c :: acc) [])

def escapeChar (c : Char) : List Char :=
  if c == '*' || c == '_' then ['\\', c] else [c]

def isBlockTag (name : String) : Bool :=
  name == "p" || name == "ol" || name == "ul" || name == "li" || headings.contains name

def isBlockNode : Option Node → Bool
  | some (.element t _) => isBlockTag t.name
  | _ => false

structure Place where
  parent : String := ""
  oneLine : Bool := false
  inItem : Bool := false
  bulletDepth : Nat := 0
  start : Nat := 1

def digitsOnly? (s : String) : Option Nat :=
  if s.toList.all Char.isDigit then s.toNat? else none

def Place.inside (p : Place) (t : Tag) : Place where
  parent := t.name
  oneLine := p.oneLine || headings.contains t.name
  inItem := p.inItem || t.name == "li"
  bulletDepth := p.bulletDepth + if t.name == "ul" then 1 else 0
  start := ((t.fixedValue? "start").bind digitsOnly?).getD 1

def isIgnored (p : Place) (before after : Option Node) : Node → Bool
  | .literal .comment _ | .literal .doctype _ => true
  | .literal _ v =>
    allBlank v && (isBlockTag p.parent && (before.isNone || after.isNone) ||
      isBlockNode before || isBlockNode after)
  | _ => false

def writeText (p : Place) (before after : Option Node) (s : String) : String :=
  let cs := (squeeze s.toList).flatMap escapeChar
  let cs := if isBlockNode before || isBlockTag p.parent && before.isNone
    then cs.dropWhile isGap else cs
  let cs := if isBlockNode after || isBlockTag p.parent && after.isNone
    then dropTrailing isBlank cs else cs
  String.ofList cs

def leadingFeeds (s : List Char) : Nat := (s.takeWhile (· == '\n')).length

def feeds (n : Nat) : List Char := List.replicate n '\n'

/-- Joins pieces; where one ends and the next begins with line feeds, the larger of the two counts
stands there, at most two. `feedsBefore` is what the last piece ended with. -/
def joinPieces (acc : List Char) (feedsBefore : Nat) : List String → List Char
  | [] => acc ++ feeds feedsBefore
  | piece :: rest =>
    let cs := piece.toList
    if cs.isEmpty then joinPieces acc feedsBefore rest
    else
      let leading := leadingFeeds cs
      let content := dropTrailing (· == '\n') (cs.drop leading)
      let trailing := cs.length - leading - content.length
      let gap :=
        if feedsBefore = 0 || leading = 0 then feedsBefore + leading
        else min 2 (max feedsBefore leading)
      joinPieces (acc ++ feeds gap ++ content) trailing rest

def wrapInline (mark : String) (s : String) : String :=
  let cs := s.toList
  let inner := strip s
  if inner.isEmpty then ""
  else
    (if cs.head? == some ' ' then " " else "") ++ mark ++ inner ++ mark ++
      (if cs.getLast? == some ' ' then " " else "")

def titlePart (t : Tag) : String :=
  match t.presentValue? "title" with
  | some title => " \"" ++ title.replace "\"" "\\\"" ++ "\""
  | none => ""

def writeLink (t : Tag) (s : String) : String :=
  let cs := s.toList
  let inner := strip s
  if inner.isEmpty then ""
  else
    let href := (t.fixedValue? "href").getD ""
    if inner.replace "\\_" "_" == href && (t.presentValue? "title").isNone then "<" ++ href ++ ">"
    else if href.isEmpty then inner
    else
      (if cs.head? == some ' ' then " " else "") ++ "[" ++ inner ++ "](" ++ href ++ titlePart t ++
        ")" ++ (if cs.getLast? == some ' ' then " " else "")

def writeImage (p : Place) (t : Tag) : String :=
  let alt := (t.fixedValue? "alt").getD ""
  if p.oneLine then alt
  else "![" ++ alt ++ "](" ++ (t.fixedValue? "src").getD "" ++ titlePart t ++ ")"

def headingLevel (name : String) : Nat :=
  ((name.drop 1).toNat?).getD 1

def writeHeading (p : Place) (name : String) (s : String) : String :=
  if p.oneLine then s
  else
    let line := (squeeze (strip s).toList).map fun c => if c == '\n' then ' ' else c
    "\n\n" ++ String.ofList (List.replicate (headingLevel name) '#') ++ " " ++ String.ofList line ++
      "\n\n"

def writeParagraph (p : Place) (s : String) : String :=
  let inner := trimWhere isGap s
  if p.oneLine then " " ++ inner ++ " "
  else if inner.isEmpty then "" else "\n\n" ++ inner ++ "\n\n"

def nextContent? (later : List Node) : Option Node :=
  later.find? fun
    | .literal .comment _ | .literal .doctype _ => false
    | .literal _ v => !allBlank v
    | _ => true

def isList : Node → Bool
  | .element t _ => lists.contains t.name
  | _ => false

def writeList (p : Place) (later : List Node) (s : String) : String :=
  if p.inItem then "\n" ++ String.ofList (dropTrailing isBlank s.toList)
  else
    let spaced := match nextContent? later with
      | some n => !isList n
      | none => false
    "\n\n" ++ s ++ if spaced then "\n" else ""

def bullet (p : Place) (itemsBefore : Nat) : String :=
  if p.parent == "ol" then toString (p.start + itemsBefore) ++ ". "
  else match (p.bulletDepth + 2) % 3 with
    | 0 => "* "
    | 1 => "+ "
    | _ => "- "

def writeItem (p : Place) (itemsBefore : Nat) (s : String) : String :=
  let inner := strip s
  if inner.isEmpty then "\n"
  else
    let mark := bullet p itemsBefore
    let margin := String.ofList (List.replicate mark.length ' ')
    let lines := (splitWhere (· == '\n') inner.toList).map String.ofList
    let body := match lines with
      | first :: rest => first :: rest.map fun l => if l.isEmpty then "" else margin ++ l
      | [] => []
    mark ++ "\n".intercalate body ++ "\n"

def writeElement (p : Place) (t : Tag) (itemsBefore : Nat) (later : List Node) (s : String) :
    String :=
  if headings.contains t.name then writeHeading p t.name s
  else match t.name with
    | "a" => writeLink t s
    | "em" => wrapInline "*" s
    | "strong" => wrapInline "**" s
    | "sup" | "sub" => wrapInline "" s
    | "br" => if p.oneLine then " " else "  \n"
    | "img" => writeImage p t
    | "p" => writeParagraph p s
    | "ul" | "ol" => writeList p later s
    | "li" => writeItem p itemsBefore s
    | _ => s

mutual
def writeNode (p : Place) (before : Option Node) (itemsBefore : Nat) (later : List Node) :
    Node → String
  | .element t cs =>
    let pieces := writeSiblings (p.inside t) none 0 cs
    writeElement p t itemsBefore later (String.ofList (joinPieces [] 0 pieces))
  | .literal _ v => writeText p before later.head? v
  | _ => ""

def writeSiblings (p : Place) (before : Option Node) (itemsBefore : Nat) :
    List Node → List String
  | [] => []
  | n :: rest =>
    let later := writeSiblings p (some n)
      (match n with
        | .element t _ => if t.name == "li" then itemsBefore + 1 else itemsBefore
        | _ => itemsBefore) rest
    if isIgnored p before rest.head? n then later
    else writeNode p before itemsBefore rest n :: later
end

def ofMarkup (markup : String) : String :=
  strip (String.ofList (joinPieces [] 0 (writeSiblings {} none 0 (Markup.parse markup))))

def ofNodes (nodes : List Node) : Except Failure String :=
  (Markup.render nodes).map ofMarkup

end Stencil.Markdown
