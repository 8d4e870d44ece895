import Stencil.Node.References

namespace Stencil

structure Locus where
  tag : Tag
  children : List Node
  before : List Node
  after : List Node
  above : Option Locus

namespace Locus

def document (roots : List Node) : Locus where
  tag := ⟨"[document]", []⟩
  children := roots
  before := []
  after := []
  above := none

def ancestors : Locus → List Locus
  | ⟨_, _, _, _, none⟩ => []
  | ⟨_, _, _, _, some l⟩ => l :: ancestors l

def elementsOf (above : Locus) (before : List Node) : List Node → List Locus
  | [] => []
  | n :: rest =>
    let others := elementsOf above (n :: before) rest
    match n with
    | .element t cs => ⟨t, cs, before, rest, some above⟩ :: others
    | _ => others

def childElements (l : Locus) : List Locus :=
  elementsOf l [] l.children

def siblings (l : Locus) : List Node :=
  l.before.reverse ++ .element l.tag l.children :: l.after

def previous (l : Locus) : List Locus :=
  match l.above with
  | some p => ((elementsOf p [] l.siblings).filter fun m => m.before.length < l.before.length).reverse
  | none => []

def following (l : Locus) : List Locus :=
  match l.above with
  | some p => (elementsOf p [] l.siblings).filter fun m => l.before.length < m.before.length
  | none => []

mutual
def descendantsOf (above : Locus) (before : List Node) : List Node → List Locus
  | [] => []
  | n :: rest => withinNode above before rest n ++ descendantsOf above (n :: before) rest

def withinNode (above : Locus) (before after : List Node) : Node → List Locus
  | .element t cs =>
    let l : Locus := ⟨t, cs, before, after, some above⟩
    l :: descendantsOf l [] cs
  | _ => []
end

def descendants (l : Locus) : List Locus :=
  descendantsOf l [] l.children

end Locus

end Stencil
