namespace Stencil.Decimal

def roundDiv (num den : Nat) : Nat :=
  let q := num / den
  let r := num % den
  if 2 * r < den then q else if den < 2 * r then q + 1 else q + q % 2

def padded (width n : Nat) : String :=
  let digits := toString n
  String.ofList (List.replicate (width - digits.length) '0') ++ digits

def fixed (places : Nat) (negative : Bool) (num den : Nat) : String :=
  let unit := Nat.pow 10 places
  let scaled := roundDiv (num * unit) den
  let whole := toString (scaled / unit)
  let sign := if negative then "-" else ""
  if places = 0 then sign ++ whole
  else sign ++ whole ++ "." ++ padded places (scaled % unit)

def fraction (x : Float) : Bool × Nat × Nat :=
  let bits := x.toBits.toNat
  let fractionBits := Nat.pow 2 52
  let exponent := bits / fractionBits % 2048
  let negative := 2048 ≤ bits / fractionBits
  let significand := bits % fractionBits + (if exponent = 0 then 0 else fractionBits)
  let exponent := max exponent 1
  if 1075 ≤ exponent then (negative, significand * Nat.pow 2 (exponent - 1075), 1)
  else (negative, significand, Nat.pow 2 (1075 - exponent))

def ofFloat (places : Nat) (x : Float) : String :=
  let (negative, num, den) := fraction x
  fixed places negative num den

end Stencil.Decimal
