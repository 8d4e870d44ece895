import Stencil.Node.Basic
import Stencil.Text.Blank

namespace Stencil

namespace Node

mutual
def references : Node → List Reference
  | literal .. => []
  | element t cs => t.attrs.filterMap Attribute.reference? ++ referencesOfList cs
  | slot _ r => [r]
  | block _ r t => r :: references t
  | content => []
  | foreign => []

def referencesOfList : List Node → List Reference
  | [] => []
  | n :: rest => references n ++ referencesOfList rest
end

def hasReferences (n : Node) : Bool :=
  !n.references.isEmpty

def isBlankText : Node → Bool
  | literal .text v => Text.allBlank v
  | _ => false

mutual
def elementDepth : Node → Nat
  | element _ cs => elementDepthOfList cs + 1
  | block _ _ t => elementDepth t
  | _ => 0

def elementDepthOfList : List Node → Nat
  | [] => 0
  | n :: rest => max (elementDepth n) (elementDepthOfList rest)
end

mutual
def blockDepth : Node → Nat
  | element _ cs => blockDepthOfList cs
  | block _ _ t => blockDepth t + 1
  | _ => 0

def blockDepthOfList : List Node → Nat
  | [] => 0
  | n :: rest => max (blockDepth n) (blockDepthOfList rest)
end

mutual
def hasForeign : Node → Bool
  | element t cs => t.attrs.contains .foreign || anyForeign cs
  | block _ _ t => hasForeign t
  | foreign => true
  | _ => false

def anyForeign : List Node → Bool
  | [] => false
  | n :: rest => hasForeign n || anyForeign rest
end

end Node

def Reference.split (r : Reference) : List String × String :=
  (r.dropLast, r.getLastD "")

def Reference.key (r : Reference) : String :=
  r.getLastD ""

end Stencil
