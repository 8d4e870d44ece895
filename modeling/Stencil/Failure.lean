import Stencil.Text.Quoted
import Stencil.Text.Utf8

namespace Stencil

inductive ConfigProblem
  | topLevel
  | noCollections
  | notAnObject (index : Nat)
  | noName (index : Nat)
  | duplicateName (index : Nat) (name : String)
  | badInclude (index : Nat)
  | badContent (index : Nat)
  | badSelector (index : Nat) (key : String)
  | emptyContent (index : Nat)
  deriving DecidableEq

inductive Failure
  | doctypesDiffer (left right : String)
  | tagsDiffer (left right : String)
  | cannotMerge (left right : String)
  | noRoot (pathname : String)
  | secondRegion
  | tooFewPages (collection : String) (count : Nat)
  | namesExhausted (base : String) (scope : List String)
  | shortReference (reference : List String) (depth : Nat)
  | noMergeRule (kind : String)
  | noRenderRule (kind : String)
  | notPlain (what : String)
  | unsupportedNode (kind : String)
  | unsupportedAttribute (kind : String)
  | badSelector (selector : String)
  | unknownEngine (name : String)
  | badConfig (source : String) (problem : ConfigProblem)
  | unreadableConfig (path : String)
  | undecodable (problem : Text.Utf8.Problem)
  | blocked (path : String)
  | notProvided
  | outOfFuel
  deriving DecidableEq

inductive FailureFamily
  | mismatch | input | naming | pairing | config | argument | encoding | type | missing | storage
  | limit
  deriving DecidableEq

namespace ConfigProblem

def message : ConfigProblem → String
  | topLevel => "top level must be an object"
  | noCollections => "'collections' must be a non-empty list"
  | notAnObject i => s!"collections[{i}] must be an object"
  | noName i => s!"collections[{i}] missing non-empty key: name"
  | duplicateName i name =>
    s!"collections[{i}] duplicates collection name " ++ Text.quoted name
  | badInclude i => s!"collections[{i}] 'include' must be a non-empty list of glob patterns"
  | badContent i => s!"collections[{i}] 'content' must be an object"
  | badSelector i key => s!"collections[{i}] content.{key} must be a non-empty string"
  | emptyContent i =>
    s!"collections[{i}] 'content' needs selector, after_selector or before_selector"

end ConfigProblem

namespace Failure

def family : Failure → FailureFamily
  | doctypesDiffer .. | tagsDiffer .. | cannotMerge .. | noRoot _ | secondRegion => .mismatch
  | tooFewPages .. => .input
  | namesExhausted .. => .naming
  | noMergeRule _ | noRenderRule _ | notPlain _ => .pairing
  | badConfig .. | unreadableConfig _ => .config
  | badSelector _ | unknownEngine _ | shortReference .. => .argument
  | undecodable _ => .encoding
  | blocked _ => .storage
  | unsupportedNode _ | unsupportedAttribute _ => .type
  | notProvided => .missing
  | outOfFuel => .limit

def message : Failure → String
  | doctypesDiffer a b => "Doctypes differ: " ++ Text.quoted a ++ " != " ++ Text.quoted b
  | tagsDiffer a b => "Aligned elements differ: <" ++ a ++ "> != <" ++ b ++ ">"
  | cannotMerge a b => "Cannot merge aligned nodes " ++ a ++ " and " ++ b
  | noRoot pathname => "No root element found in " ++ pathname
  | secondRegion => "Duplicate page contents region found"
  | tooFewPages name count =>
    "Collection " ++ Text.quoted name ++ s!" needs at least 2 html files, found {count}"
  | namesExhausted base scope =>
    "Unable to find a free name for " ++ Text.quoted base ++ " in scope " ++ Text.quotedList scope
  | shortReference .. => "list index out of range"
  | noMergeRule kind => "No merge rule for " ++ kind
  | noRenderRule kind => "No render rule for " ++ kind
  | notPlain what => "Plain HTML cannot render " ++ what
  | unsupportedNode kind => "Unsupported node type: " ++ kind
  | unsupportedAttribute kind => "Unsupported attribute type: " ++ kind
  | badSelector selector => "Invalid CSS selector " ++ Text.quoted selector
  | unknownEngine name => "Unsupported export engine \"" ++ name ++ "\""
  | badConfig source problem => source ++ ": " ++ problem.message
  | unreadableConfig path => "Unable to read config file " ++ path
  | undecodable problem => problem.message
  | blocked path => "Unable to read or write " ++ path
  | notProvided => ""
  | outOfFuel => "merge did not finish"

end Failure

theorem bind_eq_ok {ε β γ : Type} {r : Except ε β} {f : β → Except ε γ} {y : γ} :
    (r >>= f) = .ok y ↔ ∃ x, r = .ok x ∧ f x = .ok y := by
  cases r <;> simp [bind, Except.bind]

end Stencil
