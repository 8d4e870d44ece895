import Stencil.Merge.Basic
import Stencil.Merge.Extract
import Stencil.Node.Snapshot
import Stencil.Progress
import Stencil.Region
import Stencil.Registry.Renaming

namespace Stencil

structure Document where
  pathname : String
  layout : List Node
  contents : List Node := []

structure PageRecord where
  pathname : String
  fields : Fields
  contents : List Node := []

structure Collection where
  name : String
  layout : List Node
  pages : List PageRecord

namespace PageRecord

def toJson (p : PageRecord) : Except Failure Json := do
  return .object [("pathname", .string p.pathname), ("data", (Value.map p.fields).toJson),
    ("content", ← Node.treeToJson p.contents)]

end PageRecord

namespace Collection

variable (α : Type) [Grade α]

def toJson (c : Collection) : Except Failure Json := do
  let tree ← Node.treeToJson c.layout
  let pages ← c.pages.mapM PageRecord.toJson
  return .object [("name", .string c.name), ("layout", .object [("tree", tree)]),
    ("pages", .array pages)]

def mergeLayout (layout page : List Node) : Merge (List Node) := do
  let (merged, _, _) ← Merge.inScope (Merge.lists α [] {} layout page)
  return merged

def snapshot (file : String) (contents : Except Failure Json) : Merge Unit := do
  let contents ← Merge.ofExcept contents
  Merge.emit (.snapshot file contents)
  Merge.emit .endRound

def fold (name : String) (progress : Bool) (total : Nat) :
    (count : Nat) → (layout : List Node) → List Document → Merge (List Node)
  | _, layout, [] => return layout
  | count, layout, d :: rest => do
    Merge.debug ("Comparing " ++ d.pathname ++ " with the merged layout")
    let layout ← mergeLayout α layout d.layout
    let count := count + 1
    if progress then
      Merge.log .info (Progress.line ("Merging " ++ name) count total d.pathname)
    snapshot "layout.json" (Node.treeToJson layout)
    fold name progress total count layout rest

def extract (layout : List Node) (documents : List Document) : Merge (List Node × List Fields) :=
  Merge.extract Node.sameList (Merge.lists α [] {}) layout (documents.map Document.layout)

def names (layout : List Node) (records : List Fields) : Merge NameMap := do
  modify fun s => { s with registry := records.foldl (Registry.recordFields []) s.registry }
  let references := Node.referencesOfList layout
  return (← get).registry.displayNames fun scope key => references.contains (scope ++ [key])

def mergeDocuments (name : String) (progress : Bool) (first : Document) (others : List Document) :
    Merge Collection := do
  let documents := first :: others
  let layout ← fold α name progress others.length 0 first.layout others
  let (layout, records) ← extract α layout documents
  let names ← names layout records
  let pages := (documents.zip records).map fun (d, fields) =>
    { pathname := d.pathname, fields := names.renameRecord [] fields, contents := d.contents }
  let collection : Collection := { name, layout := names.renameNodes layout, pages }
  snapshot "result.json" collection.toJson
  Merge.log .info s!"Collection {name}: {pages.length} page(s) merged into one layout"
  return collection

def ofDocuments (name : String) (progress : Bool) (documents : List Document) :
    Merge Collection :=
  match documents with
  | first :: second :: rest =>
    match documents.find? fun d => (rootTag? d.layout).isNone with
    | some d => throw (.noRoot d.pathname)
    | none => do
      Merge.emit (.chapter name)
      mergeDocuments α name progress first (second :: rest)
  | _ => throw (.tooFewPages name documents.length)

end Collection

end Stencil
