import Stencil.Record
import Stencil.Registry.Basic
import Stencil.Trace

namespace Stencil

inductive Side
  | left | right
  deriving DecidableEq

def Side.other : Side → Side
  | left => right
  | right => left

structure MergeState where
  left : Fields := []
  right : Fields := []
  registry : Registry := {}
  reshaped : Nat := 0
  trace : Trace := []

abbrev Merge := ExceptT Failure (StateM MergeState)

structure Around where
  left : Option Tag := none
  right : Option Tag := none

def Around.at (a : Around) : Side → Option Tag
  | .left => a.left
  | .right => a.right

namespace MergeState

def fields (s : MergeState) : Side → Fields
  | .left => s.left
  | .right => s.right

def setFields (s : MergeState) (side : Side) (fs : Fields) : MergeState :=
  match side with
  | .left => { s with left := fs }
  | .right => { s with right := fs }

def addEvent (s : MergeState) (e : Event) : MergeState :=
  { s with trace := e :: s.trace }

def addLine (s : MergeState) (level : Level) (message : String) : MergeState :=
  s.addEvent (.line ⟨level, message⟩)

end MergeState

namespace Merge

def put (side : Side) (key : String) (v : Value) : Merge Unit :=
  modify fun s => s.setFields side (Assoc.set (Key.normalize key) v (s.fields side))

def find? (side : Side) (key : String) : Merge (Option Value) := do
  return ((← get).fields side).lookup (Key.normalize key)

def remove (side : Side) (key : String) : Merge Unit :=
  modify fun s => s.setFields side (Assoc.erase (Key.normalize key) (s.fields side))

def emit (e : Event) : Merge Unit :=
  modify fun s => s.addEvent e

def log (level : Level) (message : String) : Merge Unit :=
  modify fun s => s.addLine level message

def debug (message : String) : Merge Unit := log .debug message

def complain (complaints : List String) : Merge Unit :=
  modify fun s => complaints.foldl (fun s c => s.addLine .error c) s

def reshape : Merge Unit :=
  modify fun s => { s with reshaped := s.reshaped + 1 }

def ofExcept {β : Type} (r : Except Failure β) : Merge β :=
  ExceptT.mk (pure r)

def inScope {β : Type} (m : Merge β) : Merge (β × Fields × Fields) :=
  ExceptT.mk fun s =>
    let (r, t) := m.run { s with left := [], right := [] }
    (r.map fun x => (x, t.left, t.right), { t with left := s.left, right := s.right })

/-- A key that neither page holds and that was never given out in this scope, entered in the
registry. -/
def newKey (chain : Scope) (enclosing : Option Tag) (suffix : String) (kind : Variation)
    (source : Option Tag) (attr : Option String) : Merge String := do
  let s ← get
  let record : Record := ⟨chain, s.left⟩
  let reserved := s.registry.keys chain ++ Assoc.keys s.right
  let key ← ofExcept (record.uniqueName enclosing "" suffix reserved)
  modify fun s => { s with registry := s.registry.record chain key kind source attr }
  return key

end Merge

abbrev NodeMerger := Scope → Around → Node → Node → Merge Node

def reference (chain : Scope) (key : String) : Reference :=
  chain ++ [Key.normalize key]

end Stencil
