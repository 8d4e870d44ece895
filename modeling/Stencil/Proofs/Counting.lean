import Stencil.Proofs.Binary
import Stencil.Proofs.Exact

/-!
Grades in which counting is exact. As long as the numbers of characters, classes, attributes and nodes stay
below a bound, whole numbers, their sums and a number divided by itself are computed without rounding.
-/

namespace Stencil

namespace Grade

/-- Grades that count exactly up to a bound; `Counts x n` says that the grade `x` is the number `n`. -/
class Counting (α : Type) [Grade α] where
  Fits : Nat → Prop
  Counts : α → Nat → Prop
  fits_mono {m n : Nat} : m ≤ n → Fits n → Fits m
  fits_three : Fits 3
  counts_ofNat {n : Nat} : Fits n → Counts (ofNat n) n
  counts_add {m n : Nat} {x y : α} : Fits (m + n) → Counts x m → Counts y n → Counts (x + y) (m + n)
  counts_div {n : Nat} {x : α} : 0 < n → Fits n → Counts x n → Counts (x / ofNat n) 1
  counts_sub {n : Nat} : 0 < n → Fits n → Counts (one - ofNat 0 / ofNat n) 1
  zero_lt {x : α} : Counts x 1 → zero < x
  isOne {x : α} : Counts x 1 → Grade.isOne x = true
  reaches {x : α} : Counts x 1 → loopThreshold ≤ x

class Attainable (α : Type) [Grade α] : Prop where
  threshold {x : α} : Grade.isOne x = true → loopThreshold ≤ x

instance : Attainable Rat where
  threshold {x} h := by
    have hx : x = 1 := by simpa [Grade.isOne] using h
    rw [hx]
    decide +kernel

instance {α : Type} [Grade α] [Exact α] [Attainable α] : Counting α where
  Fits _ := True
  Counts x n := Exact.value x = n
  fits_mono _ h := h
  fits_three := trivial
  counts_ofNat _ := Exact.value_ofNat _
  counts_add _ hx hy := by rw [Exact.value_add, hx, hy, Nat.cast_add]
  counts_div hpos _ hx := by
    rw [Exact.value_div, hx, Exact.value_ofNat, div_self (Nat.cast_ne_zero.mpr hpos.ne'), Nat.cast_one]
  counts_sub _ _ := by
    rw [Exact.value_sub, Exact.value_div, Score.value_one, Exact.value_ofNat, Nat.cast_zero, zero_div,
      sub_zero, Nat.cast_one]
  zero_lt hx := by
    rw [Exact.lt_iff, Score.value_zero, hx, Nat.cast_one]
    exact one_pos
  isOne hx := Exact.isOne_iff.mpr (by rw [hx, Nat.cast_one])
  reaches hx := Attainable.threshold (Exact.isOne_iff.mpr (by rw [hx, Nat.cast_one]))

theorem zero_lt_ofWhole_one : (zero : Float) < Binary.ofWhole 1 := by
  decide +kernel

theorem isOne_ofWhole_one : Grade.isOne (Binary.ofWhole 1) = true := by
  decide +kernel

theorem loopThreshold_le_ofWhole_one : (loopThreshold : Float) ≤ Binary.ofWhole 1 := by
  decide +kernel

instance : Counting Float where
  Fits n := n < 2 ^ 53
  Counts x n := x = Binary.ofWhole n
  fits_mono hmn h := Nat.lt_of_le_of_lt hmn h
  fits_three := by norm_num
  counts_ofNat h := Binary.ofNat_eq h
  counts_add h hx hy := by
    rw [hx, hy]
    exact Binary.add_ofWhole h
  counts_div {n x} hpos h hx := by
    have hn : (ofNat n : Float) = Binary.ofWhole n := Binary.ofNat_eq h
    rw [hx, hn]
    exact Binary.div_self_ofWhole hpos h
  counts_sub {n} hpos h := by
    have hn : (ofNat n : Float) = Binary.ofWhole n := Binary.ofNat_eq h
    have hzero : (ofNat 0 : Float) = Binary.ofWhole 0 := Binary.ofNat_eq (by norm_num)
    have hone : (ofNat 1 : Float) = Binary.ofWhole 1 := Binary.ofNat_eq (by norm_num)
    rw [one, hn, hzero, hone]
    exact Binary.sub_zero_div_ofWhole hpos h
  zero_lt hx := by
    rw [hx]
    exact zero_lt_ofWhole_one
  isOne hx := by
    rw [hx]
    exact isOne_ofWhole_one
  reaches hx := by
    rw [hx]
    exact loopThreshold_le_ofWhole_one

end Grade

end Stencil
