import Stencil.Hugo.Project
import Stencil.Site.Basic

namespace Stencil.Hugo

inductive Output
  | copy (pathname : String)
  | text (f : TextFile)

namespace Output

def target : Output → String
  | copy pathname => staticFolder ++ "/" ++ pathname
  | text f => f.pathname

end Output

def collectionFiles (c : Collection) : Except Failure (List TextFile) := do
  let layout ← layoutFile c.name c.layout
  let pages ← c.pages.mapM fun p => contentFile c.name p.pathname p.fields p.contents
  return layout :: pages

def textFiles (s : Site) : Except Failure (List TextFile) := do
  let files ← s.collections.mapM collectionFiles
  return files.flatten ++ [settings]

def outputs (s : Site) : Except Failure (List Output) := do
  return s.statics.map .copy ++ (← textFiles s).map .text

def exportTo (place : Pathname) (s : Site) : Merge (List Output) := do
  Merge.log .info
    s!"Copied {s.statics.length} static file(s) to {(place.join staticFolder).text}"
  let outputs ← Merge.ofExcept (outputs s)
  for output in outputs do
    if let .text f := output then
      Merge.debug ("Wrote " ++ (place.join f.pathname).text)
  return outputs

def writeOutputs (source place : List String) : FileTree → List Output → Except Failure FileTree
  | t, [] => .ok t
  | t, output :: rest => do
    let path := (Pathname.ofText output.target).parts
    let bytes ← match output with
      | .text f => .ok f.contents.toUTF8
      | .copy pathname =>
        match t.bytes? (source ++ (Pathname.ofText pathname).parts) with
        | some bytes => .ok bytes
        | none => .error (.blocked pathname)
    match t.write place path bytes with
    | some t => writeOutputs source place t rest
    | none => .error (.blocked output.target)

end Stencil.Hugo
