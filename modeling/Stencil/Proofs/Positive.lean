import Mathlib
import Stencil.Proofs.FullScore

namespace Stencil

namespace Binary

open Float.Model Float.Model.UnpackedFloat

inductive Unsigned : UnpackedFloat → Prop
  | infinity : Unsigned (.infinity .positive)
  | zero : Unsigned (.zero .positive)
  | finite {m : Nat} {e : Int} (h : 0 < m) : Unsigned (.finite .positive m e h)

theorem unsigned_roundWithAccuracy (m : Nat) (e : Int) (a : Accuracy) :
    Unsigned (roundWithAccuracy Format.binary64 .positive m e a) := by
  unfold roundWithAccuracy
  dsimp only
  split
  · exact .zero
  · exact .finite _

theorem unsigned_add {u v : UnpackedFloat} (hu : Unsigned u) (hv : Unsigned v) :
    Unsigned (UnpackedFloat.add Format.binary64 u v) := by
  cases hu with
  | infinity =>
    cases hv <;> exact .infinity
  | zero =>
    cases hv with
    | infinity => exact .infinity
    | zero => exact .zero
    | finite h => exact .finite h
  | finite h =>
    cases hv with
    | infinity => exact .infinity
    | zero => exact .finite h
    | finite g =>
      unfold UnpackedFloat.add UnpackedFloat.normalize
      dsimp only
      split
      · next hlt =>
        rw [Int.compare_eq_lt] at hlt
        simp only [Sign.apply] at hlt
        omega
      · exact .zero
      · exact unsigned_roundWithAccuracy _ _ _

theorem unsigned_div {u : UnpackedFloat} {m : Nat} {e : Int} (hu : Unsigned u) (h : 0 < m) :
    Unsigned (UnpackedFloat.div Format.binary64 u (.finite .positive m e h)) := by
  cases hu with
  | infinity => exact .infinity
  | zero => exact .zero
  | finite => exact unsigned_roundWithAccuracy _ _ _

theorem unsigned_unpack {exponent : BitVec 11} (mantissa : BitVec 52) (h : exponent ≠ -1#11) :
    Unsigned (UnpackedFloat.unpack Format.binary64 (packComponents Format.binary64 .positive exponent mantissa)) := by
  have hsign : Sign.ofBitVec 0#1 = .positive := rfl
  rw [UnpackedFloat.unpack]
  simp only [unpackMantissa_packComponents, unpackExponent_packComponents, unpackSign_packComponents, hsign]
  rw [if_neg h]
  split
  · split
    · exact .zero
    · exact .finite _
  · exact .finite _

theorem unsigned_unpack_pack {u : UnpackedFloat} (h : Unsigned u) :
    Unsigned (unpack Format.binary64 (pack Format.binary64 u)) := by
  cases h with
  | infinity => exact .infinity
  | zero => exact .zero
  | @finite m e h =>
    unfold UnpackedFloat.pack
    dsimp only
    split
    · exact .infinity
    · next hsmall =>
      split
      · refine unsigned_unpack _ fun he => ?_
        have he := congrArg BitVec.toNat he
        rw [BitVec.toNat_ofNat] at he
        change _ % 2048 = 2047 at he
        change ¬ 2048 ≤ _ at hsmall
        omega
      · exact unsigned_unpack _ (by decide)

inductive Full (k : Int) : UnpackedFloat → Prop
  | infinity : Full k (.infinity .positive)
  | finite {m : Nat} {e : Int} (h : 0 < m) : m.log2 = 52 → k ≤ e → Full k (.finite .positive m e h)

theorem full_unpack_pack {k : Int} {u : UnpackedFloat} (hk : -1000 ≤ k) (h : Full k u) :
    Full k (unpack Format.binary64 (pack Format.binary64 u)) := by
  cases h with
  | infinity => exact .infinity
  | @finite m e h hm he =>
    by_cases hlarge : e < 972
    · rw [unpack_pack_normal h hm (by omega) hlarge]
      exact .finite h hm he
    · have hoverflow : 2 ^ Format.binary64.exponentBits ≤
          (e + Format.binary64.exponentBias + Format.binary64.mantissaBitsWithoutImplicit).toNat + 1 := by
        change 2048 ≤ (e + (1023 : Nat) + (52 : Nat)).toNat + 1
        omega
      have hpack : UnpackedFloat.pack Format.binary64 (.finite .positive m e h) =
          packedInfinity Format.binary64 .positive := if_pos hoverflow
      rw [hpack]
      exact .infinity

theorem mantissa_shiftRight (x : ExtendedMantissa) (k : Nat) : (x >>> k).mantissa = x.mantissa / 2 ^ k := by
  induction k with
  | zero => simp [shift_zero]
  | succ k ih =>
    change (x >>> k).mantissa / 2 = _
    rw [ih, Nat.div_div_eq_div_mul, Nat.pow_succ]

theorem roundedMantissa_bounds (x : ExtendedMantissa) :
    x.mantissa ≤ x.roundedMantissa ∧ x.roundedMantissa ≤ x.mantissa + 1 := by
  obtain ⟨m, round, sticky⟩ := x
  cases round <;> cases sticky <;>
    simp only [ExtendedMantissa.roundedMantissa, ExtendedMantissa.accuracy, Accuracy.roundToNearestEven] <;> omega

theorem mantissa_ofMantissaAndAccuracy (m : Nat) (a : Accuracy) :
    (ExtendedMantissa.ofMantissaAndAccuracy m a).mantissa = m := by
  rcases a with _ | (_ | _ | _) <;> rfl

theorem shiftToTargetExponent_eq {m j : Nat} {e : Int} (a : Accuracy) (hm : m.log2 = 52 + j)
    (he : -1000 ≤ e + j) :
    (shiftToTargetExponent Format.binary64 m e a).1.mantissa = m / 2 ^ j ∧
      (shiftToTargetExponent Format.binary64 m e a).2 = e + j := by
  have htarget : Format.binary64.targetExponent (totalExponent m e) = e + j := by
    unfold Format.targetExponent totalExponent Format.minExponent Format.mantissaBits
    norm_num
    omega
  have hamount : (e + j - e).toNat = j := by omega
  rw [shiftToTargetExponent, htarget, shiftToExponent, hamount]
  exact ⟨by rw [mantissa_shiftRight, mantissa_ofMantissaAndAccuracy], rfl⟩

theorem quotient_bounds {m j : Nat} (hm : m.log2 = 52 + j) : 2 ^ 52 ≤ m / 2 ^ j ∧ m / 2 ^ j < 2 ^ 53 := by
  have hpos : m ≠ 0 := by
    rintro rfl
    rw [Nat.log2_zero] at hm
    omega
  rw [Nat.le_div_iff_mul_le (Nat.two_pow_pos j), Nat.div_lt_iff_lt_mul (Nat.two_pow_pos j), ← Nat.pow_add,
    ← Nat.pow_add]
  have hlog : 53 + j = m.log2 + 1 := by omega
  rw [hlog, ← hm]
  exact ⟨Nat.log2_self_le hpos, Nat.lt_log2_self⟩

theorem full_roundWithAccuracy {m : Nat} {e k : Int} (a : Accuracy) (hm : 52 ≤ m.log2) (hk : -1000 ≤ k)
    (he : k ≤ e + (m.log2 - 52)) : Full k (roundWithAccuracy Format.binary64 .positive m e a) := by
  obtain ⟨j, hj⟩ : ∃ j, m.log2 = 52 + j := ⟨m.log2 - 52, by omega⟩
  obtain ⟨hmantissa, hexponent⟩ := shiftToTargetExponent_eq a hj (e := e) (by omega)
  obtain ⟨hlower, hupper⟩ := quotient_bounds hj
  obtain ⟨hbelow, habove⟩ := roundedMantissa_bounds (shiftToTargetExponent Format.binary64 m e a).1
  rw [roundWithAccuracy]
  dsimp only
  rw [hexponent]
  generalize (shiftToTargetExponent Format.binary64 m e a).1.roundedMantissa = r at *
  rw [hmantissa] at hbelow habove
  have hr : r ≠ 0 := by omega
  -- rounding up may carry into one more digit, which is cut off again
  obtain ⟨i, hi, hlog⟩ : ∃ i, i ≤ 1 ∧ r.log2 = 52 + i := by
    by_cases hcarry : r < 2 ^ 53
    · exact ⟨0, by omega, (Nat.log2_eq_iff hr).mpr ⟨by omega, hcarry⟩⟩
    · exact ⟨1, le_rfl, (Nat.log2_eq_iff hr).mpr ⟨by omega, by omega⟩⟩
  obtain ⟨hfinal, hlast⟩ := shiftToTargetExponent_eq .exact hlog (e := e + j) (by omega)
  have hdigits : (r / 2 ^ i).log2 = 52 := by
    obtain ⟨hge, hlt⟩ := quotient_bounds hlog
    exact (Nat.log2_eq_iff (by omega)).mpr ⟨hge, hlt⟩
  split
  · next hzero =>
    rw [hfinal] at hzero
    rw [hzero] at hdigits
    cases hdigits
  · exact .finite _ (hfinal ▸ hdigits) (by omega)

theorem full_add {k : Int} {u v : UnpackedFloat} (hk : -1000 ≤ k) (hu : Full k u) (hv : Unsigned v) :
    Full k (UnpackedFloat.add Format.binary64 u v) := by
  cases hu with
  | infinity =>
    cases hv <;> exact .infinity
  | @finite m e h hm he =>
    cases hv with
    | infinity => exact .infinity
    | zero => exact .finite h hm he
    | @finite n i hn =>
      obtain ⟨j, hj⟩ : ∃ j : Nat, (e - min e i).toNat = j := ⟨_, rfl⟩
      obtain ⟨sum, hsum, hlarge⟩ : ∃ sum : Nat, Sign.positive.apply ((m <<< (e - min e i).toNat : Nat) : Int) +
          Sign.positive.apply ((n <<< (i - min e i).toNat : Nat) : Int) = sum ∧ m * 2 ^ j ≤ sum := by
        refine ⟨m <<< (e - min e i).toNat + n <<< (i - min e i).toNat, rfl, ?_⟩
        rw [hj, Nat.shiftLeft_eq]
        exact Nat.le_add_right _ _
      have hscaled : 0 < m * 2 ^ j := Nat.mul_pos h (Nat.two_pow_pos j)
      have hdigits : 52 + j ≤ sum.log2 := by
        rw [Nat.le_log2 (by omega), Nat.pow_add]
        exact (Nat.mul_le_mul_right _ (hm ▸ Nat.log2_self_le h.ne')).trans hlarge
      have hpos : (0 : Int) < sum := by omega
      have htarget : Format.binary64.targetExponent (totalExponent sum (min e i)) = min e i + (sum.log2 - 52) := by
        unfold Format.targetExponent totalExponent Format.minExponent Format.mantissaBits
        norm_num
        omega
      have hkeeps : (min e i - (min e i + ((sum.log2 : Int) - 52))).toNat = 0 := by omega
      unfold UnpackedFloat.add UnpackedFloat.normalize decreaseExponent
      dsimp only
      rw [hsum, Int.compare_eq_gt.mpr hpos]
      dsimp only
      rw [UnpackedFloat.round, Int.toNat_natCast, htarget, decreaseExponent, hkeeps, Nat.shiftLeft_zero, Nat.cast_zero,
        Int.sub_zero]
      exact full_roundWithAccuracy .exact (by omega) hk (by omega)

theorem full_div {k : Int} {u : UnpackedFloat} {n : Nat} (hk : -900 ≤ k) (hu : Full k u) (hpos : 0 < n)
    (hn : n < 2 ^ 53) : Full (k - 53) (UnpackedFloat.div Format.binary64 u (whole n)) := by
  rw [whole_of_pos hpos]
  cases hu with
  | infinity => exact .infinity
  | @finite m e h hm he =>
    have hlog := log2_le hpos hn
    have hdivisor : mantissa n < 2 ^ 53 :=
      (Nat.log2_lt (mantissa_pos hpos).ne').mp (by rw [log2_mantissa hpos hn]; decide)
    have htarget : Format.binary64.targetExponent (totalExponent m e - totalExponent (mantissa n) (n.log2 - 52)) =
        e - (n.log2 - 52) - 53 := by
      unfold Format.targetExponent totalExponent Format.minExponent Format.mantissaBits
      rw [hm, log2_mantissa hpos hn]
      norm_num
      omega
    have hmin : min (e - ((n.log2 : Int) - 52)) (e - ((n.log2 : Int) - 52) - 53) = e - ((n.log2 : Int) - 52) - 53 := by
      omega
    have hamount : (e - ((n.log2 : Int) - 52) - (e - ((n.log2 : Int) - 52) - 53)).toNat = 53 := by omega
    have hdigits : 52 ≤ (m <<< 53 / mantissa n).log2 := by
      have hquotient : 2 ^ 52 ≤ m <<< 53 / mantissa n := by
        rw [Nat.le_div_iff_mul_le (mantissa_pos hpos), Nat.shiftLeft_eq]
        exact Nat.mul_le_mul (hm ▸ Nat.log2_self_le h.ne') hdivisor.le
      rwa [Nat.le_log2 (by omega)]
    unfold UnpackedFloat.div divCore
    dsimp only
    rw [htarget, hmin, hamount]
    exact full_roundWithAccuracy _ hdigits (by omega) (by omega)

theorem unpack_ofNat {n : Nat} (hn : n < 2 ^ 53) : (Float.ofNat n).toModel.unpack = whole n := by
  rw [ofNat_eq hn, unpack_ofWhole hn]

theorem unpack_zero : (Float.ofNat 0).toModel.unpack = .zero .positive :=
  unpack_ofNat (by norm_num)

theorem unpack_div_ofNat (x : Float) {n : Nat} (hn : n < 2 ^ 53) : (x / Float.ofNat n).toModel.unpack =
    UnpackedFloat.unpack Format.binary64 (UnpackedFloat.pack Format.binary64
      (UnpackedFloat.div Format.binary64 x.toModel.unpack (whole n))) := by
  rw [← unpack_ofNat hn]
  rfl

theorem lt_of_full {k : Int} {x : Float} (h : Full k x.toModel.unpack) : Float.ofNat 0 < x := by
  change decide ((Float.ofNat 0).toModel.unpack.lt x.toModel.unpack = true) = true
  rw [unpack_zero, decide_eq_true_eq]
  revert h
  generalize x.toModel.unpack = u
  intro h
  cases h <;> rfl

theorem unsigned_of_lt {x : Float} (h : Float.ofNat 0 < x) : Unsigned x.toModel.unpack := by
  change decide ((Float.ofNat 0).toModel.unpack.lt x.toModel.unpack = true) = true at h
  rw [unpack_zero, decide_eq_true_eq] at h
  revert h
  generalize x.toModel.unpack = u
  intro h
  rcases u with (_ | _) | _ | (_ | _) | ⟨_ | _, _, _, hm⟩
  · cases h
  · exact .infinity
  · cases h
  · cases h
  · cases h
  · cases h
  · exact .finite hm

theorem lt_irrefl (x : Float) : ¬ x < x := by
  intro h
  change decide (x.toModel.unpack.lt x.toModel.unpack = true) = true at h
  rw [decide_eq_true_eq] at h
  revert h
  generalize x.toModel.unpack = u
  intro h
  rcases u with (_ | _) | _ | (_ | _) | ⟨_ | _, _, _, _⟩ <;>
    simp [UnpackedFloat.lt, UnpackedFloat.compare] at h

end Binary

namespace Grade

class Positive (α : Type) [Grade α] [Counting α] where
  Nonneg : α → Prop
  Large : α → Prop
  nonneg_zero : Nonneg zero
  nonneg_of_lt {x : α} : zero < x → Nonneg x
  nonneg_add {x y : α} : Nonneg x → Nonneg y → Nonneg (x + y)
  nonneg_div {n : Nat} {x : α} : 0 < n → Counting.Fits α n → Nonneg x → Nonneg (x / ofNat n)
  large_one : Large one
  large_add {x y : α} : Large x → Nonneg y → Large (x + y)
  lt_div {n : Nat} {x : α} : 0 < n → n ≤ 3 → Large x → zero < x / ofNat n
  lt_irrefl (x : α) : ¬ x < x

instance {α : Type} [Grade α] [Exact α] [Attainable α] : Positive α where
  Nonneg x := 0 ≤ Exact.value x
  Large x := 0 < Exact.value x
  nonneg_zero := Score.value_zero.ge
  nonneg_of_lt h := by
    rw [Exact.lt_iff, Score.value_zero] at h
    exact h.le
  nonneg_add hx hy := by
    rw [Exact.value_add]
    exact add_nonneg hx hy
  nonneg_div _ _ hx := by
    rw [Exact.value_div, Exact.value_ofNat]
    exact div_nonneg hx (Nat.cast_nonneg _)
  large_one := by
    rw [Score.value_one]
    exact one_pos
  large_add hx hy := by
    rw [Exact.value_add]
    exact add_pos_of_pos_of_nonneg hx hy
  lt_div hpos _ hx := by
    rw [Exact.lt_iff, Score.value_zero, Exact.value_div, Exact.value_ofNat]
    exact div_pos hx (Nat.cast_pos.mpr hpos)
  lt_irrefl x h := lt_irrefl _ (Exact.lt_iff.mp h)

instance : Positive Float where
  Nonneg x := Binary.Unsigned x.toModel.unpack
  Large x := Binary.Full (-52) x.toModel.unpack
  nonneg_zero := Binary.unpack_zero ▸ .zero
  nonneg_of_lt := Binary.unsigned_of_lt
  nonneg_add hx hy := Binary.unsigned_unpack_pack (Binary.unsigned_add hx hy)
  nonneg_div {n x} hpos hn hx := by
    change Binary.Unsigned (x / Float.ofNat n).toModel.unpack
    rw [Binary.unpack_div_ofNat x hn, Binary.whole_of_pos hpos]
    exact Binary.unsigned_unpack_pack (Binary.unsigned_div hx _)
  large_one := by
    change Binary.Full (-52) (Float.ofNat 1).toModel.unpack
    rw [Binary.unpack_ofNat (by norm_num)]
    exact .finite _ (by decide +kernel) (by decide)
  large_add hx hy := Binary.full_unpack_pack (by decide) (Binary.full_add (by decide) hx hy)
  lt_div {n x} hpos hn hx := by
    have hsmall : n < 2 ^ 53 := lt_of_le_of_lt hn (by norm_num)
    have hquotient : Binary.Full (-52 - 53) (x / Float.ofNat n).toModel.unpack := by
      rw [Binary.unpack_div_ofNat x hsmall]
      exact Binary.full_unpack_pack (by decide) (Binary.full_div (by decide) hx hpos hsmall)
    exact Binary.lt_of_full hquotient
  lt_irrefl := Binary.lt_irrefl

end Grade

namespace Score

open Grade Counting Positive

variable {α : Type} [Grade α] [Counting α] [Positive α] {structural : Bool}

theorem nonneg_one : Nonneg (one : α) :=
  nonneg_of_lt (zero_lt counts_one)

theorem nonneg_textSimilarity (a b : String) : Nonneg (textSimilarity a b : α) := by
  unfold textSimilarity
  dsimp only
  split
  · exact nonneg_one
  · split
    · next h => exact nonneg_of_lt h
    · exact nonneg_zero

theorem lt_mean {x : α} (h : Nonneg x) : zero < (one + x) / ofNat 2 :=
  lt_div (by omega) (by omega) (large_add large_one h)

theorem nonneg_childrenSum {as bs : List Node} {sum : α} (hsum : Nonneg sum)
    (h : ∀ a ∈ as, ∀ b ∈ bs, Nonneg (score structural a b : α)) : Nonneg (childrenSum structural sum as bs) := by
  induction as generalizing bs sum with
  | nil =>
    rw [childrenSum.eq_def]
    exact hsum
  | cons a as ih =>
    cases bs with
    | nil =>
      rw [childrenSum.eq_def]
      exact hsum
    | cons b bs =>
      rw [childrenSum]
      refine ih (nonneg_add hsum (h a List.mem_cons_self b List.mem_cons_self)) fun c hc d hd => ?_
      exact h c (List.mem_cons_of_mem _ hc) d (List.mem_cons_of_mem _ hd)

theorem lt_score_tags {s t : Tag} {cs ds : List Node} (hname : s.name = t.name)
    (hattrs : Nonneg (attributeScore structural s t : α)) (hfits : Fits α (max cs.length ds.length))
    (hsum : Nonneg (childrenSum structural (zero : α) cs ds)) :
    zero < (score structural (.element s cs) (.element t ds) : α) := by
  have hchildren : Nonneg (childrenScore structural cs ds : α) := by
    unfold childrenScore
    dsimp only
    split
    · exact nonneg_one
    · next hne => exact nonneg_div (Nat.pos_of_ne_zero hne) hfits hsum
  rw [score_elements hname]
  exact lt_div (by omega) (by omega) (large_add (large_add large_one hattrs) hchildren)

theorem lt_score_elements {name : String} {cs ds : List Node} (hfits : Fits α (max cs.length ds.length))
    (h : ∀ a ∈ cs, ∀ b ∈ ds, Nonneg (score structural a b : α)) :
    zero < (score structural (.element ⟨name, []⟩ cs) (.element ⟨name, []⟩ ds) : α) :=
  lt_score_tags rfl nonneg_one hfits (nonneg_childrenSum nonneg_zero h)

end Score

end Stencil
