namespace Stencil.Text

def isBlank (c : Char) : Bool :=
  let n := c.toNat
  (9 ≤ n && n ≤ 13) || (28 ≤ n && n ≤ 32) || n == 0x85 || n == 0xA0 || n == 0x1680 ||
    (0x2000 ≤ n && n ≤ 0x200A) || n == 0x2028 || n == 0x2029 || n == 0x202F || n == 0x205F ||
    n == 0x3000

def isMarkupBlank (c : Char) : Bool :=
  c == ' ' || c == '\t' || c == '\n' || c == '\r' || c == '\x0c'

def dropTrailing (p : Char → Bool) (cs : List Char) : List Char :=
  (cs.reverse.dropWhile p).reverse

def trimWhere (p : Char → Bool) (s : String) : String :=
  String.ofList (dropTrailing p (s.toList.dropWhile p))

def strip (s : String) : String :=
  trimWhere isBlank s

def allBlank (s : String) : Bool :=
  s.toList.all isBlank

def splitWhere (p : Char → Bool) (cs : List Char) : List (List Char) :=
  cs.foldr (fun c pieces => match pieces with
    | piece :: rest => if p c then [] :: piece :: rest else (c :: piece) :: rest
    | [] => [[c]]) [[]]

def words (s : String) : List String :=
  ((splitWhere isBlank s.toList).filter (fun w => !w.isEmpty)).map String.ofList

/-- Lines end at a line feed; a carriage return counts as one, alone or together with a line feed behind it. -/
def normalizeNewlines : List Char → List Char
  | [] => []
  | '\r' :: '\n' :: cs => '\n' :: normalizeNewlines cs
  | '\r' :: cs => '\n' :: normalizeNewlines cs
  | c :: cs => c :: normalizeNewlines cs

example : normalizeNewlines ['a', '\r', '\r', '\n', 'b'] = ['a', '\n', '\n', 'b'] := by
  rfl

end Stencil.Text
