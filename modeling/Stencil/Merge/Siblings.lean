import Stencil.Merge.Loop
import Stencil.Merge.Text

/-!
Aligning two lists of siblings. Both are walked from the front. At each place the two nodes at hand
are merged, alone or with the run they begin, or one of them is set aside as present on one side only.
-/

namespace Stencil.Merge

variable (α : Type) [Grade α]

def wrapElement (chain : Scope) (side : Side) (t : Tag) (n : Node) : Merge Node := do
  let key ← newKey chain t "" .conditional t none
  let (template, inner) ← moveInto side chain n key
  put side key (if inner.isEmpty then .bool true else .map inner)
  put side.other key .null
  let shown ← ofExcept (n.describe 1)
  debug ("Conditional " ++ key ++ " wraps " ++ shown)
  return .block .conditional (reference chain key) template

def unmatched (chain : Scope) (side : Side) (enclosing : Option Tag) (n : Node) (rest : List Node) :
    Merge (Node × Nat) :=
  match n with
  | .literal .text v =>
    let v := Text.strip v
    if v.isEmpty then return (n, 1)
    else do
      let key ← newKey chain enclosing "" .text enclosing none
      put side key (.text v)
      put side.other key (.text "")
      return (.slot .plain (reference chain key), 1)
  | .literal .. | .content => return (n, 1)
  | .slot _ r => do
    put side.other r.key (.text "")
    return (n, 1)
  | .block .loop r _ => do
    put side.other r.key (.list [])
    return (n, 1)
  | .block .conditional r _ => do
    put side.other r.key .null
    return (n, 1)
  | .element t _ =>
    if Markdown.allowsBlocks enclosing && Markdown.isBlock n then do
      let run := Markdown.run (n :: rest)
      let key ← newKey chain enclosing "markdown" .markdown enclosing none
      put side key (.text (← markdown ((n :: rest).take run)))
      put side.other key (.text "")
      debug s!"Markdown variable {key} from {run} one-sided node(s)"
      return (.slot .markdown (reference chain key), run)
    else do
      let wrapped ← wrapElement chain side t n
      return (wrapped, 1)
  | .foreign => throw (.noMergeRule Node.foreign.kindName)

def loopExcluded : List String :=
  ["br", "source", "meta", "link", "path", "script", "style", "wbr", "hr"]

def elementsIn (nodes : List Node) : List Node := nodes.filter Node.isElement

def mergeRuns? (merge : NodeMerger) (chain : Scope) (around : Around) (a b : Node)
    (restA restB : List Node) : Merge (Option Taken) :=
  match a, b with
  | .element s _, .element t _ =>
    if loopExcluded.contains s.name || loopExcluded.contains t.name then return none
    else do
      complain (Score.complaints a b)
      if !Score.reachesThreshold (α := α) a b then return none
      else
        complain (Score.repeatComplaints α a restA)
        complain (Score.repeatComplaints α b restB)
        let runA := Score.repeats (α := α) a restA
        let runB := Score.repeats (α := α) b restB
        if runA = 0 && runB = 0 then return none
        else
          let as := elementsIn (a :: restA.take runA)
          let bs := elementsIn (b :: restB.take runB)
          if Node.sameList as bs then return none
          else
            let loop ← buildLoop merge chain around as bs
            return some ⟨loop, 1 + runA, 1 + runB⟩
  | _, _ => return none

def mergePair (merge : NodeMerger) (chain : Scope) (around : Around) (a b : Node)
    (restA restB : List Node) : Merge Taken :=
  match a, b with
  | .block .loop r t, .element .. => do
    complain (Score.repeatComplaints α t restB)
    let run := Score.repeats (α := α) t restB
    let loop ← absorb merge around .right r t (elementsIn (b :: restB.take run))
    return ⟨loop, 1, 1 + run⟩
  | .element .., .block .loop r t => do
    complain (Score.repeatComplaints α t restA)
    let run := Score.repeats (α := α) t restA
    let loop ← absorb merge around .left r t (elementsIn (a :: restA.take run))
    return ⟨loop, 1 + run, 1⟩
  | _, _ => do
    let merged ← merge chain around a b
    return ⟨merged, 1, 1⟩

def leftIsExtra (a b : Node) (current : α) (restA restB : List Node) : Bool :=
  let leftWaits := Score.hasBetterPartner true a current restB
  let rightWaits := Score.hasBetterPartner false b current restA
  if rightWaits && !leftWaits then true
  else if leftWaits && !rightWaits then false
  else restB.length < restA.length

def mergeFronts (merge : NodeMerger) (chain : Scope) (around : Around) (a b : Node)
    (restA restB : List Node) : Merge Taken := do
  if let some taken ← mergeBlocks? chain around (a :: restA) (b :: restB) then return taken
  if let some taken ← mergeRuns? α merge chain around a b restA restB then return taken
  complain (Score.complaints a b)
  let current : α := Score.score false a b
  if Grade.isOne current then return ← mergePair α merge chain around a b restA restB
  complain (Score.bestMatchComplaints α a b current restA restB)
  if Score.isBestMatch a b current restA restB then
    return ← mergePair α merge chain around a b restA restB
  complain (Score.partnerComplaints α true a current restB)
  complain (Score.partnerComplaints α false b current restA)
  if leftIsExtra α a b current restA restB then
    let (n, count) ← unmatched chain .left around.left a restA
    return ⟨n, count, 0⟩
  else
    let (n, count) ← unmatched chain .right around.right b restB
    return ⟨n, 0, count⟩

/-- Walks both lists; every step takes at least one node, so `fuel` need not exceed their number. -/
def align (merge : NodeMerger) (chain : Scope) (around : Around) :
    Nat → List Node → List Node → Merge (List Node)
  | _, [], [] => return []
  | 0, _, _ => throw .outOfFuel
  | fuel + 1, a :: restA, b :: restB => do
    let taken ← mergeFronts α merge chain around a b restA restB
    let others ← align merge chain around fuel ((a :: restA).drop taken.left)
      ((b :: restB).drop taken.right)
    return taken.node :: others
  | fuel + 1, a :: restA, [] => do
    let (n, count) ← unmatched chain .left around.left a restA
    let others ← align merge chain around fuel ((a :: restA).drop count) []
    return n :: others
  | fuel + 1, [], b :: restB => do
    let (n, count) ← unmatched chain .right around.right b restB
    let others ← align merge chain around fuel [] ((b :: restB).drop count)
    return n :: others

def mergeSiblings (merge : NodeMerger) (chain : Scope) (around : Around) (as bs : List Node) :
    Merge (List Node) := do
  match ← mergeInline? chain around as bs with
  | some nodes => return nodes
  | none => align α merge chain around (as.length + bs.length) as bs

end Stencil.Merge
