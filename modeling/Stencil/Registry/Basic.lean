import Stencil.Signature
import Stencil.Assoc
import Stencil.Value

namespace Stencil

abbrev Scope := List String

inductive Variation
  | text | attr | items | markdown | inlineMarkdown | conditional | html
  deriving DecidableEq

structure Entry where
  key : String
  kind : Variation
  source : Option Context := none
  attr : Option String := none
  values : List Value := []

structure Registry where
  scopes : List (Scope × List Entry) := []

namespace Registry

def entries (r : Registry) (scope : Scope) : List Entry :=
  (r.scopes.lookup scope).getD []

def entry? (r : Registry) (scope : Scope) (key : String) : Option Entry :=
  (r.entries scope).find? fun e => e.key == key

def keys (r : Registry) (scope : Scope) : List String :=
  (r.entries scope).map Entry.key

def has (r : Registry) (scope : Scope) (key : String) : Bool :=
  (r.entry? scope key).isSome

def putEntry (e : Entry) : List Entry → List Entry
  | [] => [e]
  | f :: rest => if e.key == f.key then e :: rest else f :: putEntry e rest

def put (r : Registry) (scope : Scope) (e : Entry) : Registry where
  scopes := Assoc.set scope (putEntry e (r.entries scope)) r.scopes

def record (r : Registry) (scope : Scope) (key : String) (kind : Variation)
    (source : Option Tag) (attr : Option String) : Registry :=
  match r.entry? scope key with
  | none => r.put scope { key, kind, source := source.map Tag.context, attr }
  | some e =>
    r.put scope { e with
      source := e.source.or (source.map Tag.context)
      attr := e.attr.or attr }

def copyEntry (r : Registry) (scope : Scope) (key : String) (target : Scope) : Registry :=
  match r.entry? scope key with
  | none => r
  | some e => r.put target e

def recordValue (r : Registry) (scope : Scope) (key : String) (v : Value) : Registry :=
  match r.entry? scope key with
  | none => r
  | some e => r.put scope { e with values := e.values ++ [v] }

mutual
def recordAt (scope : Scope) (key : String) (r : Registry) : Value → Registry
  | .map fields => recordFields (scope ++ [key]) r fields
  | .list items => recordItems (scope ++ [key]) r items
  | v => r.recordValue scope key v

def recordItems (scope : Scope) (r : Registry) : List Value → Registry
  | [] => r
  | v :: rest => recordItems scope (recordItem scope r v) rest

def recordItem (scope : Scope) (r : Registry) : Value → Registry
  | .map fields => recordFields scope r fields
  | _ => r

def recordFields (scope : Scope) (r : Registry) : List (String × Value) → Registry
  | [] => r
  | (k, v) :: rest => recordFields scope (recordAt scope k r v) rest
end

end Registry

end Stencil
