import Stencil.Markup.Render
import Stencil.Text.Blank
import Stencil.Text.Lower

/-!
Layouts as Hugo templates. At the root a slot is read from the parameters of the page; inside a block
the dot is the value of the block, and only the keys below it are written.
-/

namespace Stencil.Hugo

def isParamBreak (c : Char) : Bool :=
  c == '-' || c == ':' || c == '@' || Text.isBlank c

def joinBreaks (cs : List Char) : List Char :=
  (cs.foldl (fun (acc : List Char × Bool) c =>
    if !isParamBreak c then (c :: acc.1, false)
    else if acc.2 then acc else ('_' :: acc.1, true)) ([], false)).1.reverse

def formatParam (path : List String) : String :=
  String.ofList (joinBreaks (Text.lower (".".intercalate path)).toList)

def param (depth : Nat) (r : Reference) : String :=
  if depth = 0 then ".Params." ++ formatParam r else "." ++ formatParam (r.drop depth)

def action (body : String) : String :=
  "\x7b\x7b " ++ body ++ " \x7d\x7d"

def slotFilter : SlotKind → String
  | .plain => ""
  | .markdown | .inlineMarkdown => " | markdownify"
  | .html => " | safeHTML"

def blockWord : BlockKind → String
  | .conditional => "with "
  | .loop => "range "

def template : Dialect where
  slot depth k r := .ok (action (param depth r ++ slotFilter k))
  block depth k r := .ok (action (blockWord k ++ param depth r), action "end")
  content := .ok (action "$.Content")
  slotAttr depth n r := .ok (n ++ "=\"" ++ action (param depth r) ++ "\"")
  optionalAttr depth n r :=
    .ok (action ("with " ++ param depth r) ++ n ++ "=\"" ++ action "." ++ "\"" ++ action "end")

end Stencil.Hugo
