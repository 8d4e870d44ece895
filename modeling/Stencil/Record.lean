import Stencil.Failure
import Stencil.Signature
import Stencil.Value

namespace Stencil

structure Record where
  chain : List String := []
  fields : Fields := []

def maxNumberedNames : Nat := 2000

def numbered (base : String) (i : Nat) : String :=
  base ++ "_" ++ toString i

def freeName? (taken : String → Bool) (base : String) : Option String :=
  if taken base then
    ((List.range maxNumberedNames).find? fun i => !taken (numbered base i)).map (numbered base)
  else some base

/-- The name that a slot asks for: the signature of the enclosing element between two additions. -/
def baseName (enclosing : Option Tag) (before after : String) : String :=
  let name := Key.normalize (Key.join [before, signatureKey enclosing, after])
  if name.isEmpty then "value" else name

namespace Record

def set (r : Record) (key : String) (v : Value) : Record :=
  { r with fields := Assoc.set (Key.normalize key) v r.fields }

def get? (r : Record) (key : String) : Option Value :=
  r.fields.lookup (Key.normalize key)

def has (r : Record) (key : String) : Bool :=
  Assoc.has (Key.normalize key) r.fields

def delete (r : Record) (key : String) : Record :=
  { r with fields := Assoc.erase (Key.normalize key) r.fields }

def keys (r : Record) : List String :=
  Assoc.keys r.fields

def reference (r : Record) (key : String) : Reference :=
  r.chain ++ [Key.normalize key]

def subscope (r : Record) (key : String) : Record where
  chain := r.reference key

def uniqueName (r : Record) (enclosing : Option Tag) (before after : String)
    (reserved : List String) : Except Failure String :=
  let base := baseName enclosing before after
  match freeName? (fun name => r.has name || reserved.contains name) base with
  | some name => .ok name
  | none => .error (.namesExhausted base r.chain)

def merge (r other : Record) : Record :=
  { r with fields := mergeFields r.fields other.fields }

def describe (r : Record) : String :=
  "Data(chain=" ++ Text.quotedList r.chain ++ ", values=" ++ (Value.map r.fields).describe ++ ")"

end Record

end Stencil
