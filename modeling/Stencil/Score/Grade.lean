/-!
The numbers in which similarity is measured. Every score is built from whole numbers by addition,
subtraction and division, so it can be computed in binary floating point or exactly.
-/

namespace Stencil

class Grade (α : Type) extends Add α, Sub α, Div α, LT α, LE α where
  ofNat : Nat → α
  decLt : DecidableLT α
  decLe : DecidableLE α
  isOne : α → Bool
  loopThreshold : α

namespace Grade

instance {α : Type} [Grade α] : DecidableLT α := decLt

instance {α : Type} [Grade α] : DecidableLE α := decLe

instance : Grade Float where
  ofNat := Float.ofNat
  decLt := Float.decLt
  decLe := Float.decLe
  isOne x := x == 1
  loopThreshold := 0.89

instance : Grade Rat where
  ofNat n := n
  decLt := inferInstance
  decLe := inferInstance
  isOne x := x == 1
  loopThreshold := 89 / 100

variable {α : Type} [Grade α]

def zero : α := ofNat 0

def one : α := ofNat 1

def half : α := one / ofNat 2

end Grade

end Stencil
