import Stencil.Command.Basic

namespace Stencil.Command

def entryOf (path : List String) : IO.FS.DirEntry := ⟨"/", "/".intercalate path⟩

partial def load (deep : Bool) (entry : IO.FS.DirEntry) : IO (Option FileTree) := do
  if ← entry.path.isDir then
    let mut entries := []
    for child in ← entry.path.readDir do
      let tree ← if deep then load deep child else pure (some .empty)
      entries := tree.toList.map (fun t => (child.fileName, t)) ++ entries
    return some (.folder entries)
  else if ← entry.path.pathExists then
    return some (.file (← IO.FS.readBinFile entry.path))
  else
    return none

def save (before after : FileTree) : IO Unit := do
  for path in after.folders do
    if (before.get? path).isNone then IO.FS.createDirAll (entryOf path).path
  for (path, bytes) in after.files do
    if before.bytes? path != some bytes then IO.FS.writeBinFile (entryOf path).path bytes

def perform (args : List String) : IO UInt32 := do
  let here := (Pathname.ofText (← IO.currentDir).toString).parts
  let home := (Pathname.ofText ((← IO.getEnv "HOME").getD "/")).parts
  let place : Place := ⟨here, home⟩
  let mut tree := FileTree.empty
  for (path, deep) in paths place args do
    if let some found ← load deep (entryOf path) then
      tree := (tree.graft found path).getD tree
  let outcome := run Float place tree args
  save tree outcome.tree
  IO.print outcome.output
  IO.eprint outcome.errorText
  return outcome.code.toUInt32

end Stencil.Command

def main (args : List String) : IO UInt32 :=
  Stencil.Command.perform args
