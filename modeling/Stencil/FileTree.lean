import Stencil.Assoc
import Stencil.Failure
import Stencil.Text.Blank

namespace Stencil

inductive FileTree
  | file (bytes : ByteArray)
  | folder (entries : List (String × FileTree))

namespace FileTree

def empty : FileTree := folder []

def isFile : FileTree → Bool
  | file _ => true
  | folder _ => false

def isFolder (t : FileTree) : Bool := !t.isFile

def get? (t : FileTree) : List String → Option FileTree
  | [] => some t
  | name :: rest =>
    match t with
    | file _ => none
    | folder entries => (entries.lookup name).bind fun child => child.get? rest

def bytes? (t : FileTree) (path : List String) : Option ByteArray :=
  match t.get? path with
  | some (file bytes) => some bytes
  | _ => none

def readText (t : FileTree) (path : List String) : Except Failure String :=
  match t.bytes? path with
  | none => .error (.blocked ("/".intercalate path))
  | some bytes =>
    match Text.Utf8.decode bytes.toList with
    | .ok cs => .ok (String.ofList (Text.normalizeNewlines cs))
    | .error problem => .error (.undecodable problem)

def makeFolders (t : FileTree) : List String → Option FileTree
  | [] => if t.isFolder then some t else none
  | name :: rest =>
    match t with
    | file _ => none
    | folder entries => do
      let child ← ((entries.lookup name).getD empty).makeFolders rest
      return folder (Assoc.set name child entries)

def enter (t : FileTree) (here : List String) : List String → Option (FileTree × List String)
  | [] => some (t, here)
  | ".." :: rest => enter t here.dropLast rest
  | name :: rest => do
    let t ← t.makeFolders (here ++ [name])
    enter t (here ++ [name]) rest

def putFile (bytes : ByteArray) (name : String) (t : FileTree) : List String → Option FileTree
  | [] =>
    match t with
    | folder entries =>
      if ((entries.lookup name).map isFolder).getD false then none
      else some (folder (Assoc.set name (file bytes) entries))
    | file _ => none
  | part :: rest =>
    match t with
    | folder entries => do
      let child ← putFile bytes name (← entries.lookup part) rest
      return folder (Assoc.set part child entries)
    | file _ => none

def write (t : FileTree) (base path : List String) (bytes : ByteArray) : Option FileTree := do
  let name ← path.getLast?
  let t ← t.makeFolders base
  let (t, place) ← t.enter base path.dropLast
  if name == ".." then none else putFile bytes name t place

def graft (t new : FileTree) : List String → Option FileTree
  | [] => some new
  | name :: rest =>
    match t with
    | file _ => none
    | folder entries => do
      let child ← ((entries.lookup name).getD empty).graft new rest
      return folder (Assoc.set name child entries)

mutual
def filesBelow (path : List String) : FileTree → List (List String × ByteArray)
  | file bytes => [(path, bytes)]
  | folder entries => filesOfEntries path entries

def filesOfEntries (path : List String) :
    List (String × FileTree) → List (List String × ByteArray)
  | [] => []
  | (name, child) :: rest => filesBelow (path ++ [name]) child ++ filesOfEntries path rest
end

def files (t : FileTree) : List (List String × ByteArray) :=
  t.filesBelow []

mutual
def foldersBelow (path : List String) : FileTree → List (List String)
  | file _ => []
  | folder entries => foldersOfEntries path entries

def foldersOfEntries (path : List String) : List (String × FileTree) → List (List String)
  | [] => []
  | (name, child) :: rest =>
    (if child.isFolder then [path ++ [name]] else []) ++ foldersBelow (path ++ [name]) child ++
      foldersOfEntries path rest
end

def folders (t : FileTree) : List (List String) :=
  t.foldersBelow []

end FileTree

end Stencil
