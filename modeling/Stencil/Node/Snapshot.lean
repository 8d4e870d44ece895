import Stencil.Node.Describe

namespace Stencil

def Reference.toJson (r : Reference) : Json :=
  .array (r.map .string)

def Attribute.toJson : Attribute → Except Failure Json
  | .fixed n v =>
    .ok (.object [("type", .string "attribute"), ("name", .string n), ("value", .string v)])
  | .slot n r =>
    .ok (.object [("type", .string "variable-attribute"), ("name", .string n),
      ("reference", r.toJson)])
  | .optional n r =>
    .ok (.object [("type", .string "conditional-attribute"), ("name", .string n),
      ("reference", r.toJson)])
  | .foreign => .error (.unsupportedAttribute "Unknown")

namespace Node

mutual
def toJson : Node → Except Failure Json
  | element t cs => do
    let attrs ← t.attrs.mapM fun a => do return (a.name, ← a.toJson)
    let children ← listToJson cs
    return .object [("type", .string "element"), ("name", .string t.name), ("attrs", .object attrs),
      ("children", .array children)]
  | literal k v => .ok (.object [("type", .string k.word), ("value", .string v)])
  | slot k r => .ok (.object [("type", .string k.word), ("reference", r.toJson)])
  | block k r t => do
    let template ← toJson t
    return .object [("type", .string k.word), ("reference", r.toJson), ("template", template)]
  | content => .ok (.object [("type", .string "content")])
  | foreign => .error (.unsupportedNode foreign.kindName)

def listToJson : List Node → Except Failure (List Json)
  | [] => .ok []
  | n :: rest => do
    let first ← toJson n
    let others ← listToJson rest
    return first :: others
end

def treeToJson (nodes : List Node) : Except Failure Json := do
  return .array (← listToJson nodes)

end Node

end Stencil
