namespace Stencil.Key

def isSafe (c : Char) : Bool :=
  c.isAlphanum || c == '_'

def replaceUnsafe (cs : List Char) : List Char :=
  (cs.foldl (fun (acc : List Char × Bool) c =>
    if isSafe c then (c :: acc.1, false)
    else if acc.2 then acc else ('_' :: acc.1, true)) ([], false)).1.reverse

def normalize (name : String) : String :=
  let cs := (replaceUnsafe name.toList).dropWhile (· == '_')
  String.ofList (cs.reverse.dropWhile (· == '_')).reverse

def join (parts : List String) : String :=
  "_".intercalate (parts.filter fun p => !p.isEmpty)

end Stencil.Key
