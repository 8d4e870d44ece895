import Stencil.Text.Blank

namespace Stencil

structure Pathname where
  root : String := ""
  parts : List String := []
  deriving DecidableEq

namespace Pathname

def rootOf (cs : List Char) : String :=
  match (cs.takeWhile (· == '/')).length with
  | 0 => ""
  | 2 => "//"
  | _ => "/"

def ofText (s : String) : Pathname where
  root := rootOf s.toList
  parts := ((Text.splitWhere (· == '/') s.toList).map String.ofList).filter fun part =>
    !part.isEmpty && part != "."

def text (p : Pathname) : String :=
  if p.root.isEmpty && p.parts.isEmpty then "." else p.root ++ "/".intercalate p.parts

def join (p : Pathname) (s : String) : Pathname :=
  let q := ofText s
  if q.root.isEmpty then { p with parts := p.parts ++ q.parts } else q

def name (p : Pathname) : String :=
  p.parts.getLastD ""

def withName (p : Pathname) (name : String) : Pathname :=
  { p with parts := p.parts.dropLast ++ [name] }

def splitSuffix (name : String) : String × String :=
  let cs := name.toList
  let tail := (cs.reverse.takeWhile (· != '.')).reverse
  let stem := cs.take (cs.length - tail.length - 1)
  if tail.isEmpty || stem.isEmpty then (name, "")
  else (String.ofList stem, String.ofList ('.' :: tail))

def stem (p : Pathname) : String :=
  (splitSuffix p.name).1

def suffix (p : Pathname) : String :=
  (splitSuffix p.name).2

end Pathname

end Stencil
