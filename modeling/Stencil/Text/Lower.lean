import Stencil.Text.CaseTable

namespace Stencil.Text

def inRanges (ranges : List (Nat × Nat)) (n : Nat) : Bool :=
  ranges.any fun r => r.1 ≤ n && n ≤ r.2

def lowerChar (c : Char) : Char :=
  let n := c.toNat
  if n < 128 then c.toLower
  else match lowerRows.find? (fun (first, last, step, _, _) =>
      first ≤ n && n ≤ last && (n - first) % step == 0) with
    | some (_, _, _, gain, loss) => Char.ofNat (n + gain - loss)
    | none => c

def isCased (c : Char) : Bool :=
  inRanges casedRanges c.toNat

def isCaseIgnorable (c : Char) : Bool :=
  inRanges caseIgnorableRanges c.toNat

def meetsCased (cs : List Char) : Bool :=
  match cs.dropWhile isCaseIgnorable with
  | c :: _ => isCased c
  | [] => false

def lowerFrom (before : List Char) (acc : List Char) : List Char → List Char
  | [] => acc.reverse
  | c :: rest =>
    let low :=
      if c == 'İ' then ['\u0307', 'i']
      else if c == 'Σ' then [if meetsCased before && !meetsCased rest then 'ς' else 'σ']
      else [lowerChar c]
    lowerFrom (c :: before) (low ++ acc) rest

def lower (s : String) : String :=
  String.ofList (lowerFrom [] [] s.toList)

def lowerBasic (s : String) : String :=
  String.ofList (s.toList.map Char.toLower)

end Stencil.Text
