import Stencil.Key
import Stencil.Node.Basic
import Stencil.Text.Blank

namespace Stencil

def sortClasses (classes : List String) : List String :=
  (classes.mergeSort (fun a b => decide (a ≤ b))).eraseReps

def classList (value : Option String) : List String :=
  sortClasses (Text.words (value.getD ""))

namespace Tag

def classes (t : Tag) : List String :=
  classList (t.fixedValue? "class")

def trimmedValue? (t : Tag) (name : String) : Option String :=
  match t.fixedValue? name with
  | some v => let v := Text.strip v; if v.isEmpty then none else some v
  | none => none

def presentValue? (t : Tag) (name : String) : Option String :=
  match t.fixedValue? name with
  | some v => if v.isEmpty then none else some v
  | none => none

def metaIdentifying : List String := ["name", "property", "http-equiv", "charset"]

def signature (t : Tag) : String :=
  if t.name == "meta" then
    match metaIdentifying.findSome? t.presentValue? with
    | some v => "meta_" ++ Text.strip v
    | none => "meta_unknown"
  else if t.name == "link" then
    match t.presentValue? "rel" with
    | some rel => "link_" ++ Text.strip rel
    | none => "link_unknown"
  else match t.trimmedValue? "id" with
    | some i => "#" ++ i
    | none => ".".intercalate (t.name :: t.classes)

end Tag

def signatureKey (enclosing : Option Tag) : String :=
  match enclosing with
  | some t => Key.normalize t.signature
  | none => ""

structure Context where
  tag : String
  id : Option String
  classes : List String
  identifying : List (String × String)

def Tag.context (t : Tag) : Context where
  tag := t.name
  id := t.trimmedValue? "id"
  classes := t.classes
  identifying :=
    let names := if t.name == "meta" then ["name", "property", "http-equiv"]
      else if t.name == "link" then ["rel"] else []
    names.filterMap fun n => (t.trimmedValue? n).map fun v => (n, v)

end Stencil
