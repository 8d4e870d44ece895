import Stencil.Assoc
import Stencil.Pathname
import Stencil.Trace

namespace Stencil

structure Journal where
  chapter : String := "init"
  round : Nat := 1
  lines : List String := []
  written : Bool := false
  listening : Bool := false
  files : List (Pathname × String) := []

namespace Journal

def folder : String := ".debug"

def linesFile : String := "logs.txt"

def path (j : Journal) (file : String) : Pathname :=
  [folder, j.chapter, toString j.round, file].foldl Pathname.join {}

def write (j : Journal) (file contents : String) : Journal :=
  { j with files := Assoc.set (j.path file) contents j.files, written := true }

def writeJson (j : Journal) (file : String) (contents : Json) : Journal :=
  j.write file (contents.text ++ "\n")

def writeLines (j : Journal) : Journal :=
  if j.lines.isEmpty then j
  else { j.write linesFile ("\n".intercalate j.lines ++ "\n") with lines := [] }

def endRound (j : Journal) : Journal :=
  let j := j.writeLines
  if j.written then { j with round := j.round + 1, written := false } else j

def beginChapter (j : Journal) (name : String) : Journal :=
  { j.endRound with chapter := name, round := 1 }

def listen (j : Journal) : Journal :=
  { j with listening := true }

def hear (j : Journal) (l : LogLine) : Journal :=
  if j.listening then { j with lines := j.lines ++ [l.text] } else j

def close (j : Journal) : Journal :=
  { j with listening := false }.endRound

def record (j : Journal) : Event → Journal
  | .line l => j.hear l
  | .chapter name => j.beginChapter name
  | .snapshot file contents => j.writeJson file contents
  | .endRound => j.endRound

end Journal

end Stencil
