import Stencil.Decimal

namespace Stencil.Progress

def barWidth : Int := 24

def filled (current total width : Int) : Int :=
  let share := Float.ofInt (max 0 (min current total)) / Float.ofInt total
  min (share * Float.ofInt width).toInt64.toInt width

def repeated (c : Char) (n : Int) : String :=
  String.ofList (List.replicate n.toNat c)

def bar (current total width : Int) : String :=
  if total ≤ 0 then "[?]"
  else
    let n := filled current total width
    "[" ++ repeated '#' n ++ repeated '.' (width - n) ++ "]"

def percent (current total : Int) : String :=
  Decimal.ofFloat 1 (Float.ofInt current / Float.ofInt total * 100.0)

def line (title : String) (current total : Int) (detail : String) : String :=
  let start := title ++ " " ++ bar current total barWidth
  let counted :=
    if total ≤ 0 then start ++ s!" [{current}]"
    else start ++ s!" [{current}/{total}] ({percent current total}%)"
  if detail.isEmpty then counted else counted ++ " | " ++ detail

end Stencil.Progress
