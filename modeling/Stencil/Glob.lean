namespace Stencil

/-- The characters of a set, cut at the hyphens that make ranges: a range goes from the last character of
one chunk to the first of the next. -/
abbrev CharSet := List (List Char)

namespace CharSet

def ofChars (skip : Nat) (cs : List Char) : CharSet :=
  let head := cs.take skip ++ (cs.drop skip).takeWhile (· != '-')
  match _h : cs.drop head.length with
  | [] => [cs]
  | [_] => [head ++ ['-']]
  | _ :: rest => head :: ofChars 2 rest
  termination_by cs.length
  decreasing_by
    have := congrArg List.length _h
    simp only [List.length_drop, List.length_cons] at this
    omega

def dropBackward : CharSet → CharSet
  | [] => []
  | chunk :: rest =>
    match dropBackward rest with
    | [] => [chunk]
    | next :: rest =>
      match chunk.getLast?, next.head? with
      | some low, some high =>
        if high < low then (chunk.dropLast ++ next.tail) :: rest else chunk :: next :: rest
      | _, _ => chunk :: next :: rest

def inRange (c : Char) : CharSet → Bool
  | chunk :: next :: rest =>
    (match chunk.getLast?, next.head? with
      | some low, some high => decide (low ≤ c) && decide (c ≤ high)
      | _, _ => false) || inRange c (next :: rest)
  | _ => false

def keepHyphen : CharSet → CharSet
  | [] :: next :: rest => ('-' :: next) :: rest
  | chunks => chunks

def has (set : CharSet) (c : Char) : Bool :=
  set.any (·.contains c) || inRange c set

end CharSet

namespace Glob

inductive Part
  | one (c : Char)
  | any
  | set (negated : Bool) (chars : CharSet)
  | star

def setOf (body : List Char) : Part :=
  match CharSet.dropBackward (CharSet.ofChars (if body.head? == some '!' then 2 else 1) body) with
  | ('!' :: chunk) :: rest => .set true (CharSet.keepHyphen (chunk :: rest))
  | chunks => .set false chunks

def closeSet? (cs : List Char) : Option (List Char × List Char) :=
  let mark := if cs.head? == some '!' then 1 else 0
  let first := mark + (if (cs.drop mark).head? == some ']' then 1 else 0)
  let body := cs.take first ++ (cs.drop first).takeWhile (· != ']')
  match cs.drop body.length with
  | [] => none
  | _ :: rest => some (body, rest)

theorem length_lt_of_closeSet? {cs body rest : List Char} (h : closeSet? cs = some (body, rest)) :
    rest.length < cs.length := by
  unfold closeSet? at h
  dsimp only at h
  split at h
  · cases h
  · next hd =>
    cases h
    have := congrArg List.length hd
    simp only [List.length_drop, List.length_cons] at this
    omega

def parts (cs : List Char) : List Part :=
  match cs with
  | [] => []
  | '*' :: rest => .star :: parts rest
  | '?' :: rest => .any :: parts rest
  | '[' :: rest =>
    match _h : closeSet? rest with
    | some (body, tail) => setOf body :: parts tail
    | none => .one '[' :: parts rest
  | c :: rest => .one c :: parts rest
  termination_by cs.length
  decreasing_by
    all_goals try simp
    have := length_lt_of_closeSet? _h
    omega

def Part.accepts (c : Char) : Part → Bool
  | one d => c == d
  | any => true
  | set negated chars => chars.has c != negated
  | star => false

def accepts : List Part → List Char → Bool
  | [], cs => cs.isEmpty
  | .star :: ps, [] => accepts ps []
  | .star :: ps, c :: cs => accepts ps (c :: cs) || accepts (.star :: ps) cs
  | _ :: _, [] => false
  | p :: ps, c :: cs => p.accepts c && accepts ps cs
  termination_by ps cs => (ps.length, cs.length)

def matchesText (pattern text : String) : Bool :=
  accepts (parts pattern.toList) text.toList

end Glob

end Stencil
