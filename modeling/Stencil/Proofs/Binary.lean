import Mathlib.Tactic.NormNum

namespace Stencil.Binary

open Float.Model Float.Model.UnpackedFloat

theorem repeat_shiftRightOne (m j : Nat) :
    Nat.repeat ExtendedMantissa.shiftRightOne j ⟨m * 2 ^ j, false, false⟩ = ⟨m, false, false⟩ := by
  induction j generalizing m with
  | zero => simp [Nat.repeat]
  | succ j ih =>
    have hdouble : m * 2 ^ (j + 1) = m * 2 * 2 ^ j := by
      rw [Nat.pow_succ, Nat.mul_comm (2 ^ j), Nat.mul_assoc]
    rw [Nat.repeat, hdouble, ih, ExtendedMantissa.shiftRightOne]
    simp

theorem log2_mul_two_pow {n : Nat} (h : 0 < n) (k : Nat) : (n * 2 ^ k).log2 = n.log2 + k := by
  have hpos : 0 < n * 2 ^ k := Nat.mul_pos h (Nat.two_pow_pos k)
  rw [Nat.log2_eq_iff hpos.ne', Nat.add_right_comm, Nat.pow_add, Nat.pow_add 2 (n.log2 + 1)]
  constructor
  · exact Nat.mul_le_mul_right _ (Nat.log2_self_le h.ne')
  · exact Nat.mul_lt_mul_of_pos_right Nat.lt_log2_self (Nat.two_pow_pos k)

theorem log2_le {n : Nat} (hpos : 0 < n) (hn : n < 2 ^ 53) : n.log2 ≤ 52 :=
  Nat.lt_succ_iff.mp ((Nat.log2_lt hpos.ne').mpr hn)

theorem targetExponent_eq {n : Nat} (hpos : 0 < n) (k : Nat) :
    Format.binary64.targetExponent (totalExponent (n * 2 ^ k) (-k)) = n.log2 - 52 := by
  unfold Format.targetExponent totalExponent Format.minExponent Format.mantissaBits
  rw [log2_mul_two_pow hpos]
  norm_num
  omega

def mantissa (n : Nat) : Nat := n * 2 ^ (52 - n.log2)

theorem mantissa_pos {n : Nat} (hpos : 0 < n) : 0 < mantissa n :=
  Nat.mul_pos hpos (Nat.two_pow_pos _)

def whole (n : Nat) : UnpackedFloat :=
  if h : 0 < n then .finite .positive (mantissa n) (n.log2 - 52) (mantissa_pos h) else .zero .positive

theorem whole_of_pos {n : Nat} (hpos : 0 < n) :
    whole n = .finite .positive (mantissa n) (n.log2 - 52) (mantissa_pos hpos) :=
  dif_pos hpos

theorem shift_zero (m : ExtendedMantissa) : m >>> (0 : Nat) = m := rfl

theorem roundWithAccuracy_scaled {n k : Nat} (hpos : 0 < n) (hn : n < 2 ^ 53) (hk : 52 - n.log2 ≤ k) :
    roundWithAccuracy Format.binary64 .positive (n * 2 ^ k) (-k) .exact = whole n := by
  have hlog := log2_le hpos hn
  obtain ⟨j, rfl⟩ : ∃ j, k = 52 - n.log2 + j := ⟨k - (52 - n.log2), by omega⟩
  have hshift : n * 2 ^ (52 - n.log2 + j) = mantissa n * 2 ^ j := by
    rw [mantissa, Nat.pow_add, Nat.mul_assoc]
  have hfirst : shiftToTargetExponent Format.binary64 (n * 2 ^ (52 - n.log2 + j))
      (-((52 - n.log2 + j : Nat) : Int)) .exact = (⟨mantissa n, false, false⟩, (n.log2 : Int) - 52) := by
    have hamount : ((n.log2 : Int) - 52 - -((52 - n.log2 + j : Nat) : Int)).toNat = j := by omega
    have hexponent : -((52 - n.log2 + j : Nat) : Int) + (j : Nat) = (n.log2 : Int) - 52 := by omega
    rw [shiftToTargetExponent, targetExponent_eq hpos, shiftToExponent, hamount, hexponent, hshift]
    exact congrArg (·, (n.log2 : Int) - 52) (repeat_shiftRightOne (mantissa n) j)
  have hsecond : Format.binary64.targetExponent (totalExponent (mantissa n) ((n.log2 : Int) - 52)) =
      (n.log2 : Int) - 52 := by
    have hexponent : (n.log2 : Int) - 52 = -((52 - n.log2 : Nat) : Int) := by omega
    have htarget := targetExponent_eq hpos (52 - n.log2)
    rwa [← hexponent] at htarget
  have hrounded : (⟨mantissa n, false, false⟩ : ExtendedMantissa).roundedMantissa = mantissa n := by
    simp [ExtendedMantissa.roundedMantissa, ExtendedMantissa.accuracy, Accuracy.roundToNearestEven]
  have hagain : shiftToTargetExponent Format.binary64 (mantissa n) ((n.log2 : Int) - 52) .exact =
      (⟨mantissa n, false, false⟩, (n.log2 : Int) - 52) := by
    simp [shiftToTargetExponent, hsecond, shiftToExponent, shift_zero, ExtendedMantissa.ofMantissaAndAccuracy]
  rw [roundWithAccuracy, hfirst, whole_of_pos hpos]
  dsimp only
  rw [hrounded, hagain]
  exact dif_neg (mantissa_pos hpos).ne'

theorem round_scaled {n : Nat} (hpos : 0 < n) (hn : n < 2 ^ 53) (k : Nat) :
    UnpackedFloat.round Format.binary64 .positive (n * 2 ^ k) (-k) = whole n := by
  have hlog := log2_le hpos hn
  rw [UnpackedFloat.round, targetExponent_eq hpos]
  dsimp only
  rw [decreaseExponent]
  dsimp only
  rw [Nat.shiftLeft_eq, Nat.mul_assoc, ← Nat.pow_add]
  have hexponent : -(k : Int) - ((-(k : Int) - ((n.log2 : Int) - 52)).toNat : Int) =
      -((k + (-(k : Int) - ((n.log2 : Int) - 52)).toNat : Nat) : Int) := by omega
  rw [hexponent]
  exact roundWithAccuracy_scaled hpos hn (by omega)

theorem normalize_scaled {n : Nat} (hn : n < 2 ^ 53) (k : Nat) :
    UnpackedFloat.normalize Format.binary64 ((n * 2 ^ k : Nat) : Int) (-k) .positive = whole n := by
  by_cases hpos : 0 < n
  · have hcompare : compare ((n * 2 ^ k : Nat) : Int) 0 = .gt := by
      rw [Int.compare_eq_gt]
      exact_mod_cast Nat.mul_pos hpos (Nat.two_pow_pos k)
    rw [UnpackedFloat.normalize, hcompare]
    exact round_scaled hpos hn k
  · obtain rfl : n = 0 := by omega
    rw [Nat.zero_mul]
    rfl

theorem unpackSign_packComponents (exponent : BitVec 11) (mantissa : BitVec 52) :
    unpackSign (packComponents Format.binary64 .positive exponent mantissa) = 0#1 := by
  change (Sign.positive.toBitVec ++ exponent ++ mantissa).extractLsb' 63 1 = 0#1
  rw [BitVec.extractLsb'_append_eq_of_le (by decide), BitVec.extractLsb'_append_eq_of_le (by decide)]
  rfl

theorem pack_of_normal {m b : Nat} {e : Int} (h : 0 < m) (hm : m.log2 = 52) (hb : e + 1023 + 52 = b)
    (hsmall : b < 2047) :
    pack Format.binary64 (.finite .positive m e h) =
      packComponents Format.binary64 .positive (BitVec.ofNat 11 b) (BitVec.ofNat 52 m) := by
  have hbiased : (e + Format.binary64.exponentBias + Format.binary64.mantissaBitsWithoutImplicit).toNat = b := by
    change (e + (1023 : Nat) + (52 : Nat)).toNat = b
    omega
  delta UnpackedFloat.pack
  dsimp only
  rw [hbiased, if_neg (by change ¬ 2048 ≤ _; omega), hm,
    if_pos (show 52 + 1 = Format.binary64.mantissaBits from rfl)]

theorem unpack_of_normal {b : BitVec Format.binary64.numBits} (hones : unpackExponent b ≠ -1#11)
    (hzeros : unpackExponent b ≠ 0#11) :
    ∃ h, unpack Format.binary64 b = .finite (Sign.ofBitVec (unpackSign b)) (1#1 ++ unpackMantissa b).toNat
      ((unpackExponent b).toNat - ((1023 : Nat) + (52 : Nat))) h := by
  delta UnpackedFloat.unpack
  dsimp only
  rw [if_neg hones, if_neg hzeros]
  exact ⟨_, rfl⟩

theorem unpack_pack_normal {m : Nat} {e : Int} (h : 0 < m) (hm : m.log2 = 52) (hlower : -1075 < e)
    (hupper : e < 972) :
    unpack Format.binary64 (pack Format.binary64 (.finite .positive m e h)) = .finite .positive m e h := by
  have hfull : 2 ^ 52 ≤ m := hm ▸ Nat.log2_self_le h.ne'
  have hfits : m < 2 ^ 53 := (Nat.log2_lt h.ne').mp (by omega)
  obtain ⟨b, hb, hpos, hsmall⟩ : ∃ b : Nat, e + 1023 + 52 = b ∧ 0 < b ∧ b < 2047 := ⟨(e + 1075).toNat, by omega⟩
  have hexponent : (BitVec.ofNat 11 b).toNat = b := by
    rw [BitVec.toNat_ofNat]
    omega
  have hnormal : BitVec.ofNat 11 b ≠ -1#11 := by
    intro h
    have h := congrArg BitVec.toNat h
    rw [hexponent] at h
    change b = 2047 at h
    omega
  have hnonzero : BitVec.ofNat 11 b ≠ 0#11 := by
    intro h
    have h := congrArg BitVec.toNat h
    rw [hexponent] at h
    change b = 0 at h
    omega
  -- the leading digit is not stored
  have hdigits : (1#1 ++ BitVec.ofNat 52 m).toNat = m := by
    rw [BitVec.toNat_append, BitVec.toNat_ofNat, Nat.shiftLeft_eq]
    change 2 ^ 52 ||| m % 2 ^ 52 = m
    rw [Nat.or_comm, Nat.or_two_pow_eq_add_of_lt (Nat.mod_lt _ (Nat.two_pow_pos 52))]
    omega
  have hexp : unpackExponent (packComponents Format.binary64 .positive (BitVec.ofNat 11 b) (BitVec.ofNat 52 m)) =
      BitVec.ofNat 11 b := unpackExponent_packComponents
  rw [← hexp] at hnormal hnonzero
  obtain ⟨hp, hunpack⟩ := unpack_of_normal hnormal hnonzero
  rw [pack_of_normal h hm hb hsmall, hunpack, finite.injEq]
  refine ⟨?_, ?_, ?_⟩
  · rw [unpackSign_packComponents]
    rfl
  · rw [unpackMantissa_packComponents]
    exact hdigits
  · rw [hexp, hexponent]
    omega

theorem log2_mantissa {n : Nat} (hpos : 0 < n) (hn : n < 2 ^ 53) : (mantissa n).log2 = 52 := by
  have hlog := log2_le hpos hn
  rw [mantissa, log2_mul_two_pow hpos]
  omega

theorem unpack_pack_whole {n : Nat} (hn : n < 2 ^ 53) :
    unpack Format.binary64 (pack Format.binary64 (whole n)) = whole n := by
  by_cases hpos : 0 < n
  · have hlog := log2_le hpos hn
    rw [whole_of_pos hpos]
    exact unpack_pack_normal (mantissa_pos hpos) (log2_mantissa hpos hn) (by omega) (by omega)
  · obtain rfl : n = 0 := by omega
    rfl

def ofWhole (n : Nat) : Float := .ofModel (Float.Model.pack (whole n))

theorem unpack_ofWhole {n : Nat} (hn : n < 2 ^ 53) : (ofWhole n).toModel.unpack = whole n :=
  unpack_pack_whole hn

theorem toFloat_eq {n : Nat} (hn : n < 2 ^ 53) : n.toUInt64.toFloat = ofWhole n := by
  have htoNat : n.toUInt64.toNat = n := by
    change n % 2 ^ 64 = n
    omega
  have hnormalize := normalize_scaled hn 0
  rw [Nat.pow_zero, Nat.mul_one, Nat.cast_zero, Int.neg_zero] at hnormalize
  change Float.ofModel (Float.Model.pack (UnpackedFloat.normalize Format.binary64 (n.toUInt64.toNat : Int) 0 .positive)) = _
  rw [htoNat, hnormalize]
  rfl

theorem mul_one_ofWhole {n : Nat} (hn : n < 2 ^ 53) : ofWhole n * ofWhole 1 = ofWhole n := by
  change Float.ofModel (Float.Model.pack (UnpackedFloat.mul Format.binary64 (ofWhole n).toModel.unpack
    (ofWhole 1).toModel.unpack)) = _
  rw [unpack_ofWhole hn, unpack_ofWhole (by norm_num)]
  by_cases hpos : 0 < n
  · have hlog := log2_le hpos hn
    have hone : whole 1 = .finite .positive (2 ^ 52) (-52) (by norm_num) := rfl
    have hexponent : (n.log2 : Int) - 52 + -52 = -((52 - n.log2 + 52 : Nat) : Int) := by omega
    rw [whole_of_pos hpos, hone]
    delta UnpackedFloat.mul
    dsimp only
    rw [mantissa, Nat.mul_assoc, ← Nat.pow_add, hexponent]
    exact congrArg (fun x => Float.ofModel (Float.Model.pack x))
      (roundWithAccuracy_scaled hpos hn (by omega))
  · obtain rfl : n = 0 := by omega
    rfl

theorem ofNat_eq {n : Nat} (hn : n < 2 ^ 53) : Float.ofNat n = ofWhole n := by
  have hpower : Float.exactlyRepresentablePowersOfTen[0] = ofWhole 1 := by decide +kernel
  change Float.ofScientific n false 0 = _
  rw [Float.ofScientific, dif_pos ⟨hn, by norm_num⟩]
  simp only [Bool.false_eq_true, if_false]
  rw [hpower, toFloat_eq hn, mul_one_ofWhole hn]

theorem decreaseExponent_mantissa {n k : Nat} (hpos : 0 < n) (hn : n < 2 ^ 53) (hk : 52 - n.log2 ≤ k) :
    decreaseExponent (mantissa n) ((n.log2 : Int) - 52) (-k) = (n * 2 ^ k, -(k : Int)) := by
  have hlog := log2_le hpos hn
  have hamount : ((n.log2 : Int) - 52 - -(k : Int)).toNat = k - (52 - n.log2) := by omega
  have hdigits : 52 - n.log2 + (k - (52 - n.log2)) = k := by omega
  have hexponent : (n.log2 : Int) - 52 - ((k - (52 - n.log2) : Nat) : Int) = -(k : Int) := by omega
  rw [decreaseExponent, hamount, hexponent, Nat.shiftLeft_eq, mantissa, Nat.mul_assoc, ← Nat.pow_add, hdigits]

theorem add_ofWhole {m n : Nat} (h : m + n < 2 ^ 53) : ofWhole m + ofWhole n = ofWhole (m + n) := by
  change Float.ofModel (Float.Model.pack (UnpackedFloat.add Format.binary64 (ofWhole m).toModel.unpack
    (ofWhole n).toModel.unpack)) = _
  rw [unpack_ofWhole (by omega), unpack_ofWhole (by omega)]
  refine congrArg (fun x => Float.ofModel (Float.Model.pack x)) ?_
  by_cases hm : 0 < m
  · by_cases hn : 0 < n
    · obtain ⟨k, hk, hmk, hnk⟩ : ∃ k : Nat, min ((m.log2 : Int) - 52) (n.log2 - 52) = -k ∧
          52 - m.log2 ≤ k ∧ 52 - n.log2 ≤ k := by
        have hlogm := log2_le hm (n := m) (by omega)
        have hlogn := log2_le hn (n := n) (by omega)
        exact ⟨52 - min m.log2 n.log2, by omega, by omega, by omega⟩
      have hsum : Sign.positive.apply ((m * 2 ^ k : Nat) : Int) + Sign.positive.apply ((n * 2 ^ k : Nat) : Int) =
          (((m + n) * 2 ^ k : Nat) : Int) := by
        rw [Nat.add_mul]
        rfl
      rw [whole_of_pos hm, whole_of_pos hn]
      delta UnpackedFloat.add
      dsimp only
      rw [hk, decreaseExponent_mantissa hm (by omega) hmk, decreaseExponent_mantissa hn (by omega) hnk]
      dsimp only
      rw [hsum]
      exact normalize_scaled h k
    · obtain rfl : n = 0 := by omega
      rw [Nat.add_zero, whole_of_pos hm]
      rfl
  · obtain rfl : m = 0 := by omega
    rw [Nat.zero_add]
    by_cases hn : 0 < n
    · rw [whole_of_pos hn]
      rfl
    · obtain rfl : n = 0 := by omega
      rfl

theorem div_self_ofWhole {n : Nat} (hpos : 0 < n) (hn : n < 2 ^ 53) : ofWhole n / ofWhole n = ofWhole 1 := by
  change Float.ofModel (Float.Model.pack (UnpackedFloat.div Format.binary64 (ofWhole n).toModel.unpack
    (ofWhole n).toModel.unpack)) = _
  refine congrArg (fun x => Float.ofModel (Float.Model.pack x)) ?_
  have hshift : mantissa n <<< 53 / mantissa n = 1 * 2 ^ 53 := by
    rw [Nat.shiftLeft_eq, Nat.mul_div_cancel_left _ (mantissa_pos hpos), Nat.one_mul]
  have hrest : mantissa n <<< 53 % mantissa n = 0 := by
    rw [Nat.shiftLeft_eq, Nat.mul_mod_right]
  have hcore : divCore Format.binary64 (mantissa n) ((n.log2 : Int) - 52) (mantissa n)
      ((n.log2 : Int) - 52) = (1 * 2 ^ 53, -((53 : Nat) : Int), .exact) := by
    rw [divCore, Int.sub_self, Int.sub_self]
    change (mantissa n <<< 53 / mantissa n, -((53 : Nat) : Int),
      accuracyOfFraction (mantissa n <<< 53 % mantissa n) (mantissa n)) = _
    rw [hshift, hrest]
    rfl
  rw [unpack_ofWhole hn, whole_of_pos hpos]
  delta UnpackedFloat.div
  dsimp only
  rw [hcore]
  exact roundWithAccuracy_scaled (n := 1) (k := 53) (by norm_num) (by norm_num) (by decide)

theorem sub_zero_div_ofWhole {n : Nat} (hpos : 0 < n) (hn : n < 2 ^ 53) :
    ofWhole 1 - ofWhole 0 / ofWhole n = ofWhole 1 := by
  have hdiv : ofWhole 0 / ofWhole n = ofWhole 0 := by
    change Float.ofModel (Float.Model.pack (UnpackedFloat.div Format.binary64 (ofWhole 0).toModel.unpack
      (ofWhole n).toModel.unpack)) = _
    rw [unpack_ofWhole hn, whole_of_pos hpos]
    rfl
  rw [hdiv]
  decide +kernel

end Stencil.Binary
