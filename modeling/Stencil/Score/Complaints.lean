import Stencil.Node.References
import Stencil.Score.Basic

namespace Stencil.Score

open Grade

variable (α : Type) [Grade α]

def complaint (a b : Node) : String :=
  "No equivalency rule for " ++ a.kindName ++ " / " ++ b.kindName

mutual
def complaintsWithin : Node → Node → List String
  | .block _ _ t, b => complaintsWithin t b
  | .foreign, b => [complaint .foreign b.core]
  | .element s cs, b =>
    match b.core with
    | .element t ds => if s.name == t.name then listComplaints cs ds else []
    | .foreign => [complaint (.element s []) .foreign]
    | _ => []
  | .literal k v, b => match b.core with
    | .foreign => [complaint (.literal k v) .foreign]
    | _ => []
  | .slot k r, b => match b.core with
    | .foreign => [complaint (.slot k r) .foreign]
    | _ => []
  | .content, b => match b.core with
    | .foreign => [complaint .content .foreign]
    | _ => []

def listComplaints : List Node → List Node → List String
  | a :: as, b :: bs => complaintsWithin a b ++ listComplaints as bs
  | _, _ => []
end

def complaints (a b : Node) : List String :=
  if a.hasForeign || b.hasForeign then complaintsWithin a b else []

def tried (first : Bool) (node : Node) (current : α) : List Node → List Node
  | [] => []
  | other :: rest =>
    if current < (if first then score false node other else score false other node) then [other]
    else other :: tried first node current rest

def partnerComplaints (first : Bool) (node : Node) (current : α) (others : List Node) :
    List String :=
  if node.hasForeign || Node.anyForeign others then
    (tried α first node current others).flatMap fun other =>
      if first then complaints node other else complaints other node
  else []

def bestMatchComplaints (a b : Node) (current : α) (restA restB : List Node) : List String :=
  if zero < current then
    partnerComplaints α true a current restB ++
      if hasBetterPartner true a current restB then []
      else partnerComplaints α false b current restA
  else []

def comparedRepeats (current : Node) : List Node → List Node
  | [] => []
  | n :: rest =>
    match n with
    | .literal .text v => if Text.allBlank v then comparedRepeats current rest else []
    | .element _ _ =>
      if reachesThreshold (α := α) current n then n :: comparedRepeats current rest else [n]
    | _ => []

def repeatComplaints (current : Node) (remaining : List Node) : List String :=
  if current.hasForeign || Node.anyForeign remaining then
    (comparedRepeats α current remaining).flatMap (complaints current)
  else []

end Stencil.Score
