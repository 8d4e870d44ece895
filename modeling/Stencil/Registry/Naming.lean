import Stencil.Key
import Stencil.Record
import Stencil.Registry.Basic

namespace Stencil

abbrev NameMap := List (Scope × List (String × String))

namespace Variation

def word : Variation → String
  | text => "text"
  | attr => "attribute"
  | items => "items"
  | markdown => "markdown"
  | inlineMarkdown => "inline_markdown"
  | conditional => "conditional"
  | html => "html"

end Variation

def semanticNames (tag : String) : List String :=
  if ["h1", "h2", "h3", "h4", "h5", "h6"].contains tag then ["heading", "subheading"]
  else if tag == "li" then ["item"]
  else if tag == "nav" then ["navigation"]
  else if tag == "img" then ["image"]
  else if tag == "title" then ["title"]
  else if tag == "a" then ["link"]
  else []

def sortByLength (xs : List String) : List String :=
  xs.mergeSort fun a b => a.length ≤ b.length

namespace Entry

def stableClasses (e : Entry) : List String :=
  let observed := e.values.filterMap fun
    | .text s => some (classList (some s))
    | _ => none
  match observed with
  | [] => (e.source.map Context.classes).getD []
  | first :: rest => rest.foldl (fun stable classes => stable.filter classes.contains) first

def candidates (e : Entry) (nested : Bool) : List String :=
  match e.source with
  | none => [e.key]
  | some source =>
    let semantic := semanticNames source.tag
    let classes := sortByLength source.classes
    let id := source.id.toList
    let identifying := source.identifying.map Prod.snd
    let ofKind := match e.kind with
      | .attr =>
        if e.attr == some "class" then
          let stable := sortByLength e.stableClasses
          (stable ++ classes.filter fun c => !stable.contains c).map (· ++ "_class") ++
            [source.tag ++ "_class"]
        else
          let attr := match e.attr with
            | some a => if a.isEmpty then "attr" else a
            | none => "attr"
          identifying ++ [attr] ++ (id ++ classes ++ semantic ++ [source.tag]).map (· ++ "_" ++ attr)
      | .items => (id ++ classes).map (· ++ "_items") ++ ["items", source.tag ++ "_items"]
      | .markdown | .inlineMarkdown =>
        [e.kind.word] ++ semantic ++ id ++ classes ++ [source.tag ++ "_" ++ e.kind.word]
      | .html => id ++ classes ++ [source.tag]
      | .conditional =>
        identifying.map (fun v => source.tag ++ "_" ++ v) ++ id ++ classes ++ semantic ++ [source.tag]
      | .text => (if nested then ["text"] else []) ++ semantic ++ id ++ classes ++ [source.tag]
    ofKind ++ [e.key]

end Entry

namespace Registry

def firstFreeNumber (taken : List String) (base : String) : Nat :=
  ((List.range (taken.length + 1)).find? fun i => !taken.contains (numbered base i)).getD 0

def chooseName (taken : List String) (above : Option String) (e : Entry)
    (candidates : List String) : String :=
  let formatted := candidates.map Key.normalize
  match formatted.find? fun n => !n.isEmpty && !taken.contains n && some n != above with
  | some name => name
  | none =>
    let base := Key.normalize (candidates.headD e.key)
    let base := if base.isEmpty then e.key else base
    numbered base (firstFreeNumber taken base)

def ranksBefore (x y : Entry × List String) : Bool :=
  x.2.length < y.2.length || (x.2.length == y.2.length && decide (x.1.key ≤ y.1.key))

def scopeNames (nested : Bool) (above : Option String) (entries : List Entry) :
    List (String × String) :=
  let ranked := (entries.map fun e => (e, e.candidates nested)).mergeSort ranksBefore
  ranked.foldl (fun names (e, candidates) =>
    Assoc.set e.key (chooseName (names.map Prod.snd) above e candidates) names) []

def nameScope (r : Registry) (wanted : Scope → String → Bool) (names : NameMap) (scope : Scope) :
    NameMap :=
  let entries := (r.entries scope).filter fun e => wanted scope e.key
  let above := match scope.getLast? with
    | some key => ((names.lookup scope.dropLast).getD []).lookup key
    | none => none
  Assoc.set scope (scopeNames (!scope.isEmpty) above entries) names

def nameQueue (r : Registry) (wanted : Scope → String → Bool) :
    Nat → List Scope → NameMap → NameMap
  | 0, _, names => names
  | _, [], names => names
  | fuel + 1, scope :: queue, names =>
    if Assoc.has scope names then nameQueue r wanted fuel queue names
    else
      let names := nameScope r wanted names scope
      let below := (((names.lookup scope).getD []).map fun e => scope ++ [e.1]).filter fun child =>
        Assoc.has child r.scopes && !Assoc.has child names
      nameQueue r wanted fuel (queue ++ below) names

/-- Names every recorded scope: first those that can be reached from the root through named keys, each
once, then the others from the shortest path to the longest. -/
def displayNames (r : Registry) (wanted : Scope → String → Bool) : NameMap :=
  let names := nameQueue r wanted (r.scopes.length + 1) [[]] []
  let byDepth := (r.scopes.map Prod.fst).mergeSort fun s t => s.length ≤ t.length
  byDepth.foldl (fun names scope =>
    if Assoc.has scope names then names else nameScope r wanted names scope) names

end Registry

end Stencil
