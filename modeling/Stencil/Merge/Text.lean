import Stencil.Markdown.Writer
import Stencil.Merge.State
import Stencil.Node.Describe

namespace Stencil.Merge

def mergeTexts (chain : Scope) (around : Around) (v w : String) : Merge Node :=
  let a := Text.strip v
  let b := Text.strip w
  if a == b then return .text v
  else do
    let key ← newKey chain around.left "" .text around.left none
    put .left key (.text a)
    put .right key (.text b)
    debug ("Text variable " ++ key ++ ": " ++ Text.quoted a ++ " / " ++ Text.quoted b)
    return .slot .plain (reference chain key)

def markup (n : Node) : Merge String := ofExcept (Markup.render [n])

def markdown (nodes : List Node) : Merge String := ofExcept (Markdown.ofNodes nodes)

def mergeDrawings (chain : Scope) (s : Tag) (a b : Node) : Merge Node := do
  let x ← markup a
  let y ← markup b
  if x == y then return a
  else
    let key ← newKey chain s "" .html s none
    put .left key (.text x)
    put .right key (.text y)
    debug ("Svg variable " ++ key)
    return .slot .html (reference chain key)

def singleSlot? (kind : SlotKind) (nodes : List Node) : Option Reference :=
  match nodes.filter fun n => !n.isBlankText with
  | [.slot k r] => if k = kind then some r else none
  | _ => none

def inlineValue (side : Side) (textSlot : Option Reference) (md : String) (key : String) :
    Merge Unit := do
  match textSlot with
  | none => put side key (.text md)
  | some r =>
    put side key ((← find? side r.key).getD (.text ""))
    reshape

def mergeInline? (chain : Scope) (around : Around) (as bs : List Node) :
    Merge (Option (List Node)) :=
  if !Markdown.allowsInline around.left then return none
  else match singleSlot? .inlineMarkdown as, singleSlot? .inlineMarkdown bs with
    | some _, some _ => return none
    | some r, none =>
      if Markdown.isInlineTree bs then do
        put .right r.key (.text (← markdown bs))
        return some [.slot .inlineMarkdown r]
      else return none
    | none, some r =>
      if Markdown.isInlineTree as then do
        put .left r.key (.text (← markdown as))
        return some [.slot .inlineMarkdown r]
      else return none
    | none, none =>
      let va := singleSlot? .plain as
      let vb := singleSlot? .plain bs
      if va.isSome && vb.isSome || va.isNone && !Markdown.isInlineTree as ||
          vb.isNone && !Markdown.isInlineTree bs ||
          !(Markdown.containsElement as || Markdown.containsElement bs) then return none
      else do
        let x ← if va.isSome then pure "" else markdown as
        let y ← if vb.isSome then pure "" else markdown bs
        if va.isNone && vb.isNone && x == y then return none
        else
          let key ← newKey chain around.left "inline_markdown" .inlineMarkdown around.left none
          inlineValue .left va x key
          inlineValue .right vb y key
          debug ("Inline markdown variable " ++ key)
          return some [.slot .inlineMarkdown (reference chain key)]

structure Taken where
  node : Node
  left : Nat
  right : Nat

def mergeBlocks? (chain : Scope) (around : Around) (as bs : List Node) : Merge (Option Taken) :=
  if !Markdown.allowsBlocks around.left then return none
  else
    let blockA := (as.head?.map Markdown.isBlock).getD false
    let blockB := (bs.head?.map Markdown.isBlock).getD false
    let runA := Markdown.run as
    let runB := Markdown.run bs
    match as.head?, bs.head? with
    | some (.slot .markdown r), _ =>
      if blockB then do
        put .right r.key (.text (← markdown (bs.take runB)))
        return some ⟨.slot .markdown r, 1, runB⟩
      else return none
    | _, some (.slot .markdown r) =>
      if blockA then do
        put .left r.key (.text (← markdown (as.take runA)))
        return some ⟨.slot .markdown r, runA, 1⟩
      else return none
    | _, _ =>
      if blockA && blockB then do
        let x ← markdown (as.take runA)
        let y ← markdown (bs.take runB)
        if x == y then return none
        else
          let key ← newKey chain around.left "markdown" .markdown around.left none
          put .left key (.text x)
          put .right key (.text y)
          debug s!"Markdown variable {key} from {runA} / {runB} node(s)"
          return some ⟨.slot .markdown (reference chain key), runA, runB⟩
      else return none

end Stencil.Merge
