import Mathlib
import Spreadsheet.Number.Arithmetic

/-! # Whole numbers as doubles

A whole number below `2 ^ 53` fits into the digits of a double, so it is a double as it stands:
`wholeParts` are its parts, and rounding at any finer place gives nothing else (`round_whole`).

* `ofNat_add_ofNat`: such numbers add up as they should, as long as the sum is one of them.
* `sum_ones`: as many ones as they are add up to their number. No ones add up to zero. -/

namespace Spreadsheet.Number

open Float.Model UnpackedFloat

variable {n s : Nat}

/-! ### The parts of a whole number -/

/-- The place of the last digit of a whole number, below the point, if 53 digits are written. -/
def placesOf (n : Nat) : Nat := 52 - n.log2

theorem digits_bounds (h0 : 0 < n) (h : n < 2 ^ 53) :
    2 ^ 52 ≤ n * 2 ^ placesOf n ∧ n * 2 ^ placesOf n < 2 ^ 53 := by
  have hlog : n.log2 < 53 := (Nat.log2_lt (by omega)).mpr h
  have hlow := Nat.mul_le_mul_right (2 ^ placesOf n) (Nat.log2_self_le (n := n) (by omega))
  have hhigh :=
    Nat.mul_lt_mul_of_pos_right (Nat.lt_log2_self (n := n)) (Nat.two_pow_pos (placesOf n))
  rw [← Nat.pow_add] at hlow hhigh
  have hlast : n.log2 + placesOf n = 52 := by
    unfold placesOf
    omega
  have hnext : n.log2 + 1 + placesOf n = 53 := by omega
  rw [hlast] at hlow
  rw [hnext] at hhigh
  exact ⟨hlow, hhigh⟩

/-- The double of a whole number, in parts. -/
def wholeParts (n : Nat) : UnpackedFloat :=
  if h : 0 < n then
    .finite .positive (n * 2 ^ placesOf n) (-placesOf n) (Nat.mul_pos h (Nat.two_pow_pos _))
  else .zero .positive

theorem log2_shifted (h0 : 0 < n) (s : Nat) : (n * 2 ^ s).log2 = n.log2 + s := by
  have hlow := Nat.mul_le_mul_right (2 ^ s) (Nat.log2_self_le (n := n) (by omega))
  have hhigh := Nat.mul_lt_mul_of_pos_right (Nat.lt_log2_self (n := n)) (Nat.two_pow_pos s)
  rw [← Nat.pow_add] at hlow hhigh
  have hne : n * 2 ^ s ≠ 0 := (Nat.mul_pos h0 (Nat.two_pow_pos s)).ne'
  rw [Nat.log2_eq_iff hne, Nat.add_right_comm]
  exact ⟨hlow, hhigh⟩

/-! ### Rounding -/

theorem targetExponent_shifted (h0 : 0 < n) (h : n < 2 ^ 53) (s : Nat) :
    Format.binary64.targetExponent (totalExponent (n * 2 ^ s) (-s)) = -placesOf n := by
  have hlog : n.log2 < 53 := (Nat.log2_lt (by omega)).mpr h
  simp only [Format.targetExponent, totalExponent, log2_shifted h0, Format.mantissaBits,
    Format.minExponent, placesOf]
  omega

/-- Zeros behind the last place are dropped without a trace. -/
theorem shiftRight_zeros (m s : Nat) :
    ExtendedMantissa.ofMantissaAndAccuracy (m * 2 ^ s) .exact >>> s =
      ExtendedMantissa.ofMantissaAndAccuracy m .exact := by
  induction s generalizing m with
  | zero =>
    rw [Nat.pow_zero, Nat.mul_one]
    rfl
  | succ s ih =>
    have hpow : m * 2 ^ (s + 1) = m * 2 * 2 ^ s := by
      rw [Nat.pow_succ, Nat.mul_assoc, Nat.mul_comm 2]
    show ExtendedMantissa.shiftRightOne
      (ExtendedMantissa.ofMantissaAndAccuracy (m * 2 ^ (s + 1)) .exact >>> s) = _
    rw [hpow, ih]
    simp [ExtendedMantissa.shiftRightOne, ExtendedMantissa.ofMantissaAndAccuracy]

theorem shiftToTargetExponent_whole (h0 : 0 < n) (h : n < 2 ^ 53) (hs : placesOf n ≤ s) :
    shiftToTargetExponent .binary64 (n * 2 ^ s) (-s) .exact =
      (ExtendedMantissa.ofMantissaAndAccuracy (n * 2 ^ placesOf n) .exact,
        -(placesOf n : Int)) := by
  have hshift : (-(placesOf n : Int) - -(s : Int)).toNat = s - placesOf n := by omega
  have hplace : -(s : Int) + (s - placesOf n : Nat) = -(placesOf n : Int) := by omega
  have hpow : n * 2 ^ s = n * 2 ^ placesOf n * 2 ^ (s - placesOf n) := by
    rw [Nat.mul_assoc, ← Nat.pow_add, Nat.add_sub_cancel' hs]
  simp only [shiftToTargetExponent, shiftToExponent, targetExponent_shifted h0 h, hshift, hplace]
  rw [hpow, shiftRight_zeros]

/-- Rounding gives a whole number back, however many zeros stand behind it. -/
theorem roundWithAccuracy_whole (h0 : 0 < n) (h : n < 2 ^ 53) (hs : placesOf n ≤ s) :
    roundWithAccuracy .binary64 .positive (n * 2 ^ s) (-s) .exact = wholeParts n := by
  have hrounded : (ExtendedMantissa.ofMantissaAndAccuracy (n * 2 ^ placesOf n)
      .exact).roundedMantissa = n * 2 ^ placesOf n := rfl
  have hmantissa : (ExtendedMantissa.ofMantissaAndAccuracy (n * 2 ^ placesOf n)
      .exact).mantissa = n * 2 ^ placesOf n := rfl
  have hne : n * 2 ^ placesOf n ≠ 0 := (Nat.mul_pos h0 (Nat.two_pow_pos _)).ne'
  simp only [roundWithAccuracy, shiftToTargetExponent_whole h0 h hs, hrounded,
    shiftToTargetExponent_whole h0 h (Nat.le_refl _), hmantissa]
  rw [dif_neg hne, wholeParts, dif_pos h0]

/-- **A whole number is not changed by rounding.** -/
theorem round_whole (h0 : 0 < n) (h : n < 2 ^ 53) (s : Nat) :
    UnpackedFloat.round .binary64 .positive (n * 2 ^ s) (-s) = wholeParts n := by
  have hshift : (-(s : Int) - -(placesOf n : Int)).toNat = placesOf n - s := by omega
  have hplace : -(s : Int) - (placesOf n - s : Nat) = -((s + (placesOf n - s) : Nat) : Int) := by
    omega
  have hpow : (n * 2 ^ s) <<< (placesOf n - s) = n * 2 ^ (s + (placesOf n - s)) := by
    rw [Nat.shiftLeft_eq, Nat.mul_assoc, ← Nat.pow_add]
  simp only [UnpackedFloat.round, targetExponent_shifted h0 h, decreaseExponent, hshift, hplace,
    hpow]
  exact roundWithAccuracy_whole h0 h (by omega)

theorem normalize_whole (h : n < 2 ^ 53) (s : Nat) :
    UnpackedFloat.normalize .binary64 ((n * 2 ^ s : Nat) : Int) (-s) .positive = wholeParts n := by
  unfold UnpackedFloat.normalize
  rcases Nat.eq_zero_or_pos n with rfl | h0
  · rw [Nat.zero_mul]
    rfl
  · have hpos : compare ((n * 2 ^ s : Nat) : Int) 0 = .gt := by
      have hmul := Nat.mul_pos h0 (Nat.two_pow_pos s)
      exact compare_gt_iff_gt.mpr (by omega)
    rw [hpos]
    exact round_whole h0 h s

/-! ### Packing -/

/-- 53 digits are packed without the first one and unpacked with it. -/
theorem unpack_pack_digits {m p : Nat} (hlow : 2 ^ 52 ≤ m) (hhigh : m < 2 ^ 53) (hp : p ≤ 52)
    (hm : 0 < m) :
    UnpackedFloat.unpack .binary64 (UnpackedFloat.pack .binary64 (.finite .positive m (-p) hm)) =
      .finite .positive m (-p) hm := by
  have hlog : m.log2 = 52 := (Nat.log2_eq_iff hm.ne').mpr ⟨hlow, hhigh⟩
  have hbiased : (-(p : Int) + Format.binary64.exponentBias +
      Format.binary64.mantissaBitsWithoutImplicit).toNat = 1075 - p := by
    show (-(p : Int) + 1023 + 52).toNat = 1075 - p
    omega
  have hpack : UnpackedFloat.pack .binary64 (.finite .positive m (-p) hm) =
      packComponents .binary64 .positive (BitVec.ofNat 11 (1075 - p)) (BitVec.ofNat 52 m) := by
    have hfits : ¬2 ^ Format.binary64.exponentBits ≤ 1075 - p + 1 := by
      show ¬2 ^ 11 ≤ 1075 - p + 1
      omega
    simp only [UnpackedFloat.pack, hbiased, if_neg hfits, hlog]
    rfl
  have hexponent : (BitVec.ofNat 11 (1075 - p)).toNat = 1075 - p := by
    rw [BitVec.toNat_ofNat]
    omega
  have hfull : BitVec.ofNat 11 (1075 - p) ≠ -1#11 := by
    rw [ne_eq, ← BitVec.toNat_inj, hexponent]
    show 1075 - p ≠ 2047
    omega
  have hempty : BitVec.ofNat 11 (1075 - p) ≠ 0#11 := by
    rw [ne_eq, ← BitVec.toNat_inj, hexponent]
    show 1075 - p ≠ 0
    omega
  have hdigits : (1#1 ++ BitVec.ofNat 52 m).toNat = m := by
    rw [BitVec.toNat_append, BitVec.toNat_ofNat, BitVec.toNat_ofNat, ← Nat.shiftLeft_add_eq_or_of_lt
      (Nat.mod_lt m (Nat.two_pow_pos 52)), Nat.shiftLeft_eq]
    omega
  have hplace : ((1075 - p : Nat) : Int) -
      (Format.binary64.exponentBias + Format.binary64.mantissaBitsWithoutImplicit) = -p := by
    show ((1075 - p : Nat) : Int) - (1023 + 52) = -p
    omega
  simp only [hpack, UnpackedFloat.unpack, unpackMantissa_packComponents,
    unpackExponent_packComponents, unpackSign_packComponents, Sign.ofBitVec_toBitVec, if_neg hfull,
    if_neg hempty, hdigits, hexponent, hplace]

/-- A whole number is packed without a loss. -/
theorem unpack_pack_whole (h : n < 2 ^ 53) : (pack (wholeParts n)).unpack = wholeParts n := by
  show UnpackedFloat.unpack .binary64 (UnpackedFloat.pack .binary64 (wholeParts n)) = _
  unfold wholeParts
  split
  · next h0 =>
    have hplaces : placesOf n ≤ 52 := Nat.sub_le _ _
    obtain ⟨hlow, hhigh⟩ := digits_bounds h0 h
    exact unpack_pack_digits hlow hhigh hplaces _
  · exact unpack_packedZero

/-- The conversion of a whole number loses nothing. -/
theorem ofNat_eq (h : n < 2 ^ 53) : Float.ofNat n = .ofModel (pack (wholeParts n)) := by
  have hone : (Float.Model.ofBits 0x3FF0000000000000).unpack =
      .finite .positive (2 ^ 52) (-52) (by decide) := rfl
  have hword : n.toUInt64.toNat = n := by
    rw [Nat.toUInt64, UInt64.toNat_ofNat']
    omega
  have hconverted : Float.Model.ofUInt64 n.toUInt64 = pack (wholeParts n) := by
    show pack (UnpackedFloat.normalize .binary64 (n.toUInt64.toNat : Int) 0 .positive) = _
    rw [hword]
    exact congrArg pack (by simpa using normalize_whole h 0)
  -- the conversion multiplies by one
  have hmul : UnpackedFloat.mul .binary64 (wholeParts n)
      (.finite .positive (2 ^ 52) (-52) (by decide)) = wholeParts n := by
    rcases Nat.eq_zero_or_pos n with rfl | h0
    · rfl
    · have hplaces : -(placesOf n : Int) + -52 = -((placesOf n + 52 : Nat) : Int) := by omega
      have hdigits : n * 2 ^ placesOf n * 2 ^ 52 = n * 2 ^ (placesOf n + 52) := by
        rw [Nat.mul_assoc, ← Nat.pow_add]
      conv_lhs => rw [wholeParts, dif_pos h0]
      show roundWithAccuracy .binary64 .positive (n * 2 ^ placesOf n * 2 ^ 52)
        (-(placesOf n : Int) + -52) .exact = _
      rw [hplaces, hdigits]
      exact roundWithAccuracy_whole h0 h (Nat.le_add_right _ _)
  have hofNat : Float.ofNat n =
      .ofModel (Float.Model.ofUInt64 n.toUInt64 * Float.Model.ofBits 0x3FF0000000000000) := by
    show Float.ofScientific n false 0 = _
    rw [Float.ofScientific, dif_pos ⟨h, by decide⟩]
    rfl
  rw [hofNat, hconverted]
  show Float.ofModel (pack (UnpackedFloat.mul .binary64 (pack (wholeParts n)).unpack
    (Float.Model.ofBits 0x3FF0000000000000).unpack)) = _
  rw [unpack_pack_whole h, hone, hmul]

theorem isNaN_ofNat (h : n < 2 ^ 53) : (Float.ofNat n).isNaN = false := by
  rw [ofNat_eq h]
  show (pack (wholeParts n)).unpack.isNaN = false
  rw [unpack_pack_whole h]
  unfold wholeParts
  split <;> rfl

/-! ### Sums -/

theorem add_whole {a b : Nat} (h : a + b < 2 ^ 53) :
    UnpackedFloat.add .binary64 (wholeParts a) (wholeParts b) = wholeParts (a + b) := by
  rcases Nat.eq_zero_or_pos a with rfl | ha
  · rw [Nat.zero_add]
    show UnpackedFloat.add .binary64 (.zero .positive) (wholeParts b) = _
    unfold wholeParts
    split <;> rfl
  · rcases Nat.eq_zero_or_pos b with rfl | hb
    · rw [Nat.add_zero]
      show UnpackedFloat.add .binary64 (wholeParts a) (.zero .positive) = _
      unfold wholeParts
      rw [dif_pos ha]
      rfl
    · -- both are written with as many places as the smaller one needs
      obtain ⟨s, hs⟩ : ∃ s, s = max (placesOf a) (placesOf b) := ⟨_, rfl⟩
      have hmin : min (-(placesOf a : Int)) (-(placesOf b : Int)) = -(s : Int) := by omega
      have hshift : ∀ n, placesOf n ≤ s →
          (n * 2 ^ placesOf n) <<< (-(placesOf n : Int) - -(s : Int)).toNat = n * 2 ^ s := by
        intro n hn
        have hamount : (-(placesOf n : Int) - -(s : Int)).toNat = s - placesOf n := by omega
        rw [hamount, Nat.shiftLeft_eq, Nat.mul_assoc, ← Nat.pow_add, Nat.add_sub_cancel' hn]
      have hsum : ((a * 2 ^ s : Nat) : Int) + ((b * 2 ^ s : Nat) : Int) =
          (((a + b) * 2 ^ s : Nat) : Int) := by
        rw [Nat.add_mul, Int.natCast_add]
      rw [wholeParts, dif_pos ha, wholeParts, dif_pos hb]
      simp only [UnpackedFloat.add, decreaseExponent, Sign.apply, hmin, hshift a (by omega),
        hshift b (by omega), hsum]
      exact normalize_whole h s

/-- **Whole numbers add up without rounding**, as long as the sum has 53 binary digits. -/
theorem ofNat_add_ofNat {a b : Nat} (h : a + b < 2 ^ 53) :
    Float.ofNat a + Float.ofNat b = Float.ofNat (a + b) := by
  rw [ofNat_eq h, ofNat_eq (show a < 2 ^ 53 by omega), ofNat_eq (show b < 2 ^ 53 by omega)]
  show Float.ofModel (pack (UnpackedFloat.add .binary64 (pack (wholeParts a)).unpack
    (pack (wholeParts b)).unpack)) = _
  rw [unpack_pack_whole (by omega), unpack_pack_whole (by omega), add_whole h]

theorem foldl_ones {a b : Nat} (h : a + b < 2 ^ 53) :
    (List.replicate b (1 : Float)).foldl (· + ·) (Float.ofNat a) = Float.ofNat (a + b) := by
  induction b generalizing a with
  | zero => rfl
  | succ b ih =>
    have hnext : Float.ofNat a + 1 = Float.ofNat (a + 1) := ofNat_add_ofNat (b := 1) (by omega)
    rw [List.replicate_succ, List.foldl_cons, hnext, ih (by omega), Nat.add_right_comm,
      Nat.add_assoc]

/-- **Ones add up to their number**; without any, the sum is the zero with the other sign. -/
theorem sum_ones (h : n < 2 ^ 53) : (sum (List.replicate n 1) == Float.ofNat n) = true := by
  unfold sum
  cases n with
  | zero => decide
  | succ n =>
    have hfirst : (-0.0 : Float) + 1 = Float.ofNat 1 := by decide
    have hnumber : Float.ofNat (n + 1) ≠ Float.nan := by
      simpa using isNaN_ofNat h
    rw [List.replicate_succ, List.foldl_cons, hfirst, foldl_ones (by omega), Nat.add_comm 1 n]
    exact Float.beq_self_iff.mpr hnumber

end Spreadsheet.Number
