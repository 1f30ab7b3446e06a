import Mathlib
import Spreadsheet.Proofs.Number.Printed

/-! # Doubles by their bits

The size of a double, its pattern without the sign, tells what kind of double it is: an infinity
has the size `infinityBits`, and what is larger is no number (`isInf_iff`, `isNaN_iff`).

* `toNat_toBits_ofBits`: the pattern of a number is kept by the double that is made of it.
* `isNaN_toFloat`, `Number.isNaN_of_read?`: what is read is a number; without a minus it is not
  below zero (`Decimal.nonneg_toFloat`). -/

namespace Spreadsheet

namespace Number

open Float.Model UnpackedFloat

variable {x : Float}

/-! ### Kinds of doubles -/

theorem unpackExponent_eq_iff :
    @unpackExponent .binary64 x.toModel.toBits.toBitVec = -1#11 ↔ infinityBits ≤ sizeBits x := by
  have hexponent := toNat_unpackExponent x
  have hbits := x.toBits.toNat_lt
  rw [← BitVec.toNat_inj, hexponent]
  show _ = 2047 ↔ _
  simp only [sizeBits, infinityBits, Nat.shiftLeft_eq]
  omega

theorem unpackMantissa_eq_iff :
    @unpackMantissa .binary64 x.toModel.toBits.toBitVec = 0#52 ↔ sizeBits x % 2 ^ 52 = 0 := by
  have hmantissa := toNat_unpackMantissa x
  rw [← BitVec.toNat_inj, hmantissa]
  show _ = 0 ↔ _
  simp only [sizeBits, Nat.shiftLeft_eq]
  omega

theorem sizeBits_lt_two_pow (x : Float) : sizeBits x < 2 ^ 63 := by
  simp only [sizeBits, Nat.shiftLeft_eq]
  omega

/-- The exponent field of a double that is not finite is full; an infinity has no other field. -/
theorem isNaN_isInf_iff_fields (x : Float) :
    (x.isNaN = true ↔ @unpackExponent .binary64 x.toModel.toBits.toBitVec = -1#11 ∧
      ¬@unpackMantissa .binary64 x.toModel.toBits.toBitVec = 0#52) ∧
    (x.isInf = true ↔ @unpackExponent .binary64 x.toModel.toBits.toBitVec = -1#11 ∧
      @unpackMantissa .binary64 x.toModel.toBits.toBitVec = 0#52) := by
  show ((UnpackedFloat.unpack .binary64 x.toModel.toBits.toBitVec).isNaN = true ↔ _) ∧
    ((UnpackedFloat.unpack .binary64 x.toModel.toBits.toBitVec).isInf = true ↔ _)
  simp only [UnpackedFloat.unpack]
  split_ifs with he hm h0 h1
  · simp [UnpackedFloat.isNaN, UnpackedFloat.isInf, he, hm]
  · simp [UnpackedFloat.isNaN, UnpackedFloat.isInf, he, hm]
  · simp [UnpackedFloat.isNaN, UnpackedFloat.isInf, h0, h1]
  · simp [UnpackedFloat.isNaN, UnpackedFloat.isInf, h0]
  · simp only [UnpackedFloat.isNaN, UnpackedFloat.isInf, he, false_and, Bool.false_eq_true,
      iff_self, and_self]

/-- No number lies beyond infinity. -/
theorem isNaN_iff : x.isNaN = true ↔ infinityBits < sizeBits x := by
  have hsize := sizeBits_lt_two_pow x
  rw [(isNaN_isInf_iff_fields x).1, unpackExponent_eq_iff, unpackMantissa_eq_iff]
  simp only [infinityBits, Nat.shiftLeft_eq]
  omega

theorem isInf_iff : x.isInf = true ↔ sizeBits x = infinityBits := by
  have hsize := sizeBits_lt_two_pow x
  rw [(isNaN_isInf_iff_fields x).2, unpackExponent_eq_iff, unpackMantissa_eq_iff]
  simp only [infinityBits, Nat.shiftLeft_eq]
  omega

/-! ### The double of a pattern -/

/-- The pattern of a number is the pattern of its double. -/
theorem toBits_ofBits {w : UInt64} (h : w.toNat % 2 ^ 63 ≤ infinityBits) :
    (Float.ofBits w).toBits = w := by
  have hexponent : (@unpackExponent .binary64 w.toBitVec).toNat = w.toNat / 2 ^ 52 % 2 ^ 11 := by
    rw [unpackExponent_def, BitVec.extractLsb'_toNat, Nat.shiftRight_eq_div_pow]
    rfl
  have hmantissa : (@unpackMantissa .binary64 w.toBitVec).toNat = w.toNat % 2 ^ 52 := by
    rw [unpackMantissa_def, BitVec.extractLsb'_toNat]
    rfl
  have hnumber : ¬@isNaNBits .binary64 w.toBitVec = true := by
    simp only [isNaNBits, decide_eq_true_eq, ← BitVec.toNat_inj, hexponent, ne_eq, hmantissa]
    show ¬(_ = 2047 ∧ ¬_ = 0)
    simp only [infinityBits, Nat.shiftLeft_eq] at h
    omega
  have hpack : (UnpackedFloat.unpack .binary64 w.toBitVec).pack .binary64 = w.toBitVec := by
    rw [pack_unpack, if_neg hnumber]
  exact UInt64.toBitVec_inj.mp hpack

/-- A sign and a size that is not beyond infinity are the pattern of their double. -/
theorem toNat_toBits_ofBits (negative : Bool) {bits : Nat} (h : bits ≤ infinityBits) :
    (ofBits negative bits).toBits.toNat = (if negative then 1 <<< 63 + bits else bits) := by
  have hword : ∀ n < 2 ^ 64, n % 2 ^ 63 = bits →
      (Float.ofBits (UInt64.ofNat n)).toBits.toNat = n := by
    intro n hn hmod
    have hnat : (UInt64.ofNat n).toNat = n := UInt64.toNat_ofNat_of_lt hn
    rw [toBits_ofBits (by rwa [hnat, hmod]), hnat]
  simp only [infinityBits, Nat.shiftLeft_eq] at h
  cases negative with
  | false => exact hword bits (by omega) (by omega)
  | true => exact hword (1 <<< 63 + bits) (by omega) (by omega)

/-- The size of a pattern that is not beyond infinity is kept, under either sign. -/
theorem sizeBits_ofBits (negative : Bool) {bits : Nat} (h : bits ≤ infinityBits) :
    sizeBits (ofBits negative bits) = bits := by
  rw [sizeBits, toNat_toBits_ofBits negative h]
  simp only [infinityBits, Nat.shiftLeft_eq] at h ⊢
  split <;> omega

theorem isNegative_ofBits (negative : Bool) {bits : Nat} (h : bits ≤ infinityBits) :
    isNegative (ofBits negative bits) = negative := by
  rw [isNegative, toNat_toBits_ofBits negative h]
  simp only [infinityBits, Nat.shiftLeft_eq] at h ⊢
  cases negative with
  | false => exact decide_eq_false (by simp only [Bool.false_eq_true, if_false]; omega)
  | true => exact decide_eq_true (by simp only [if_true]; omega)

/-- A number without a sign is not below zero. -/
theorem nonneg_of_isNegative (hsign : isNegative x = false) (hnan : x.isNaN = false) : 0 ≤ x := by
  have hbit : x.toBits.toNat / 2 ^ 63 % 2 ^ 1 = 0 := by
    simp only [isNegative, Nat.shiftLeft_eq, decide_eq_false_iff_not] at hsign
    omega
  have hpositive : @unpackSign .binary64 x.toModel.toBits.toBitVec = 0#1 :=
    BitVec.eq_of_toNat_eq ((toNat_unpackSign x).trans hbit)
  have hnumber : x.toModel.unpack.isNaN = false := hnan
  refine decide_eq_true (p := (UnpackedFloat.zero .positive).le x.toModel.unpack = true) ?_
  simp only [Float.Model.unpack, UnpackedFloat.unpack, hpositive] at hnumber ⊢
  split_ifs at hnumber ⊢
  · rfl
  · cases hnumber
  · rfl
  · rfl
  · rfl

/-- What is nearest to a ratio is a number. -/
theorem isNaN_ofRatio (negative : Bool) (num den : Nat) :
    (ofRatio negative num den).isNaN = false := by
  have hbits : nearestBits num den ≤ infinityBits := Nat.min_le_right _ _
  rw [← Bool.not_eq_true, isNaN_iff, ofRatio, sizeBits_ofBits negative hbits]
  omega

end Number

theorem Decimal.isNaN_toFloat (d : Decimal) : d.toFloat.isNaN = false := by
  rw [Decimal.toFloat_eq]
  exact Number.isNaN_ofRatio _ _ _

/-- A decimal without a minus is read as a number that is not below zero. -/
theorem Decimal.nonneg_toFloat {d : Decimal} (h : d.negative = false) : 0 ≤ d.toFloat := by
  refine Number.nonneg_of_isNegative ?_ d.isNaN_toFloat
  rw [Decimal.toFloat_eq, h]
  exact Number.isNegative_ofBits false (Nat.min_le_right _ _)

/-- **What a text is read as is a number.** -/
theorem Number.isNaN_of_read? {s : String} {x : Float} (h : Number.read? s = some x) :
    x.isNaN = false := by
  obtain ⟨d, -, rfl⟩ := Option.map_eq_some_iff.mp h
  exact d.isNaN_toFloat

end Spreadsheet
