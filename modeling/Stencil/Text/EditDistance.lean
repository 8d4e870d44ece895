/-!
Edit distance between two texts: the least number of insertions, deletions and replacements of one
character that turn one into the other. It is computed row by row over the prefixes of the first.
-/

namespace Stencil.Text

/-- The rest of a row, last entry first: `diag` and `ups` are the entries of the row before,
`left` is the entry just written. -/
def extendRow (c : Char) : List Char → Nat → List Nat → Nat → List Nat → List Nat
  | b :: bs, diag, up :: ups, left, acc =>
    let best := min (min (up + 1) (left + 1)) (if c == b then diag else diag + 1)
    extendRow c bs up ups best (best :: acc)
  | _, _, _, _, acc => acc

def nextRow (bs : List Char) (row : List Nat) (c : Char) : List Nat :=
  match row with
  | diag :: ups => (extendRow c bs diag ups (diag + 1) [diag + 1]).reverse
  | [] => []

def editDistanceChars (as bs : List Char) : Nat :=
  (as.foldl (nextRow bs) (List.range (bs.length + 1))).getLastD 0

def editDistance (a b : String) : Nat :=
  if a == b then 0 else editDistanceChars a.toList b.toList

end Stencil.Text
