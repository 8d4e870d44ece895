import Stencil.Registry.Naming

namespace Stencil

namespace NameMap

def nameOf (names : NameMap) (scope : Scope) (key : String) : String :=
  (((names.lookup scope).getD []).lookup key).getD key

def renamePath (names : NameMap) (scope : Scope) : List String → List String
  | [] => []
  | key :: rest => names.nameOf scope key :: renamePath names (scope ++ [key]) rest

def renameReference (names : NameMap) (r : Reference) : Reference :=
  names.renamePath [] r

def renameAttribute (names : NameMap) : Attribute → Attribute
  | .slot n r => .slot n (names.renameReference r)
  | .optional n r => .optional n (names.renameReference r)
  | a => a

mutual
def renameNode (names : NameMap) : Node → Node
  | .slot k r => .slot k (names.renameReference r)
  | .block k r t => .block k (names.renameReference r) (renameNode names t)
  | .element t cs =>
    .element { t with attrs := t.attrs.map names.renameAttribute } (renameNodes names cs)
  | n => n

def renameNodes (names : NameMap) : List Node → List Node
  | [] => []
  | n :: rest => renameNode names n :: renameNodes names rest
end

mutual
def renameValue (names : NameMap) (scope : Scope) : Value → Value
  | .map fields => .map (renameFields names scope [] fields)
  | .list items => .list (renameItems names scope items)
  | v => v

def renameItems (names : NameMap) (scope : Scope) : List Value → List Value
  | [] => []
  | v :: rest => renameItem names scope v :: renameItems names scope rest

def renameItem (names : NameMap) (scope : Scope) : Value → Value
  | .map fields => .map (renameFields names scope [] fields)
  | v => v

def renameFields (names : NameMap) (scope : Scope) (acc : Fields) : List (String × Value) → Fields
  | [] => acc
  | (k, v) :: rest =>
    renameFields names scope
      (Assoc.set (names.nameOf scope k) (renameValue names (scope ++ [k]) v) acc) rest
end

def renameRecord (names : NameMap) (scope : Scope) (fields : Fields) : Fields :=
  names.renameFields scope [] fields

end NameMap

end Stencil
