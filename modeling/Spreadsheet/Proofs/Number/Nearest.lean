import Mathlib.Algebra.Order.Ring.Nat
import Mathlib.Tactic.NormNum
import Mathlib.Tactic.Ring
import Spreadsheet.Number.Decimal

/-! # The double nearest to a decimal

Which double is nearest depends on the ratio alone (`nearestBits_congr`), so a decimal is read as
the same double however its digits are shifted against its power of ten.

* `Decimal.toFloat_eq`: a decimal is always read as the double nearest to it. Decimals that are
  obviously too large or too small need no arithmetic, and get the same double without it.
* `Decimal.toFloat_congr`: decimals of the same number and sign are read as the same double.
* `Decimal.toFloat_strip`: zeros at the end of the digits do not matter. -/

namespace Spreadsheet

namespace Number

variable {a b c num den : Nat}

/-! ### Ratios -/

theorem divEven_mul_left (hc : 0 < c) (a b : Nat) : divEven (c * a) (c * b) = divEven a b := by
  have hmod : c * a % (c * b) = c * (a % b) := Nat.mul_mod_mul_left c a b
  have hlt : ∀ x y, 2 * (c * x) < c * y ↔ 2 * x < y := fun x y => by
    rw [Nat.mul_left_comm]
    exact Nat.mul_lt_mul_left hc
  have hgt : ∀ x y, c * y < 2 * (c * x) ↔ y < 2 * x := fun x y => by
    rw [Nat.mul_left_comm]
    exact Nat.mul_lt_mul_left hc
  simp only [divEven, Nat.mul_div_mul_left a b hc, hmod, hlt, hgt]

/-- A common factor does not matter. -/
theorem nearestBits_mul_left (hc : 0 < c) (num den : Nat) :
    nearestBits (c * num) (c * den) = nearestBits num den := by
  have hnum : (c * num) <<< 1074 = c * num <<< 1074 := by
    simp only [Nat.shiftLeft_eq, Nat.mul_assoc]
  have hden : ∀ n, (c * den) <<< n = c * den <<< n := fun n => by
    simp only [Nat.shiftLeft_eq, Nat.mul_assoc]
  simp only [nearestBits, hnum, hden]
  generalize num <<< 1074 = a
  rw [Nat.mul_div_mul_left a den hc, divEven_mul_left hc]

/-- **The nearest double depends on the ratio alone.** -/
theorem nearestBits_congr {num' den' : Nat} (hden : 0 < den) (hden' : 0 < den')
    (h : num * den' = num' * den) : nearestBits num den = nearestBits num' den' :=
  calc nearestBits num den = nearestBits (den' * num) (den' * den) :=
        (nearestBits_mul_left hden' num den).symm
    _ = nearestBits (den * num') (den * den') := by
        rw [Nat.mul_comm den' num, h, Nat.mul_comm num' den, Nat.mul_comm den' den]
    _ = nearestBits num' den' := nearestBits_mul_left hden num' den'

theorem nearestBits_zero (hden : 0 < den) : nearestBits 0 den = 0 := by
  have h : divEven 0 den = 0 := by
    simp only [divEven, Nat.zero_div, Nat.zero_mod, Nat.mul_zero, if_pos hden]
  simp [nearestBits, h]

/-- Less than half a unit is rounded to zero. -/
theorem nearestBits_of_small (h : 2 * num <<< 1074 < den) : nearestBits num den = 0 := by
  unfold nearestBits
  generalize num <<< 1074 = a at h
  have hdiv : a / den = 0 := Nat.div_eq_of_lt (by omega)
  have hmod : a % den = a := Nat.mod_eq_of_lt (by omega)
  simp [hdiv, divEven, hmod, h]

/-- What is beyond the largest double is rounded to infinity. -/
theorem nearestBits_of_large {m : Nat} (hden : 0 < den) (hm : 1024 ≤ m) (h : 2 ^ m * den ≤ num) :
    nearestBits num den = infinityBits := by
  have hshift : ∀ i, 2 ^ (m + i) ≤ num <<< i / den := fun i => by
    rw [Nat.le_div_iff_mul_le hden, Nat.shiftLeft_eq, pow_add, Nat.mul_right_comm]
    exact Nat.mul_le_mul_right _ h
  have hquot := hshift 1074
  simp only [nearestBits]
  generalize num <<< 1074 = a at hquot
  have hne : a / den ≠ 0 := (Nat.lt_of_lt_of_le (Nat.two_pow_pos _) hquot).ne'
  have hlog : m + 1074 ≤ Nat.log2 (a / den) := (Nat.le_log2 hne).mpr hquot
  obtain ⟨n, hn⟩ : ∃ n, Nat.log2 (a / den) = n + 52 := ⟨_, (Nat.sub_add_cancel (by omega)).symm⟩
  -- the quotient has `n + 53` bits, and what is left of it behind the last `n` ones at least 53
  have hrest : 2 ^ 52 ≤ divEven a (den * 2 ^ n) := by
    refine le_trans ?_ (div_le_divEven _ _)
    rw [← Nat.div_div_eq_div_mul, Nat.le_div_iff_mul_le (Nat.two_pow_pos n), ← pow_add,
      Nat.add_comm]
    exact hn ▸ Nat.log2_self_le hne
  have hinfinity : infinityBits = 2047 * 2 ^ 52 := rfl
  rw [hn, Nat.add_sub_cancel, Nat.shiftLeft_eq, Nat.shiftLeft_eq, hinfinity]
  refine min_eq_right ?_
  calc 2047 * 2 ^ 52 = 2046 * 2 ^ 52 + 2 ^ 52 := rfl
    _ ≤ n * 2 ^ 52 + divEven a (den * 2 ^ n) :=
        Nat.add_le_add (Nat.mul_le_mul_right _ (by omega)) hrest

end Number

namespace Decimal

open Number

theorem pow_ten_pos (n : Nat) : 0 < Nat.pow 10 n := Nat.pow_pos (by decide)

theorem two_pow_le_pow_ten (n : Nat) : 2 ^ (3 * n) ≤ Nat.pow 10 n :=
  calc 2 ^ (3 * n) = 8 ^ n := pow_mul 2 3 n
    _ ≤ 10 ^ n := Nat.pow_le_pow_left (by decide) n

/-- A number of some bits, shifted by `m` more, is below a power of ten with a third as many
places. -/
theorem shifted_lt_pow_ten {k m n : Nat} (h : Nat.log2 k + m + 2 ≤ 3 * n) :
    2 * k <<< m < Nat.pow 10 n :=
  calc 2 * k <<< m = 2 * (k * 2 ^ m) := by rw [Nat.shiftLeft_eq]
    _ < 2 * (2 ^ (Nat.log2 k + 1) * 2 ^ m) :=
        Nat.mul_lt_mul_of_pos_left
          (Nat.mul_lt_mul_of_pos_right Nat.lt_log2_self (Nat.two_pow_pos m)) (by decide)
    _ = 2 ^ (Nat.log2 k + m + 2) := by ring
    _ ≤ 2 ^ (3 * n) := Nat.pow_le_pow_right (by decide) h
    _ ≤ Nat.pow 10 n := two_pow_le_pow_ten n

/-- **A decimal is read as the double nearest to it.** -/
theorem toFloat_eq (d : Decimal) : d.toFloat = ofRatio d.negative
    (d.digits * Nat.pow 10 d.exponent.toNat) (Nat.pow 10 (-d.exponent).toNat) := by
  unfold toFloat ofRatio
  split
  · next hzero => rw [hzero, Nat.zero_mul, nearestBits_zero (pow_ten_pos _)]
  · next hzero =>
    split
    · next hlarge =>
      have hm : 1024 ≤ 3 * d.exponent.toNat := by omega
      rw [nearestBits_of_large (pow_ten_pos _) hm]
      have hden : Nat.pow 10 (-d.exponent).toNat = 1 := by
        rw [show (-d.exponent).toNat = 0 by omega]
      rw [hden, Nat.mul_one]
      exact (two_pow_le_pow_ten _).trans (Nat.le_mul_of_pos_left _ (Nat.pos_of_ne_zero hzero))
    · split
      · next hsmall =>
        rw [nearestBits_of_small]
        have hnum : Nat.pow 10 d.exponent.toNat = 1 := by
          rw [show d.exponent.toNat = 0 by omega]
        rw [hnum, Nat.mul_one]
        exact shifted_lt_pow_ten (by omega)
      · rfl

/-- **Decimals of the same number and sign are read as the same double.** -/
theorem toFloat_congr {d e : Decimal} (hsign : d.negative = e.negative)
    (h : d.digits * Nat.pow 10 d.exponent.toNat * Nat.pow 10 (-e.exponent).toNat =
      e.digits * Nat.pow 10 e.exponent.toNat * Nat.pow 10 (-d.exponent).toNat) :
    d.toFloat = e.toFloat := by
  rw [toFloat_eq, toFloat_eq, hsign, ofRatio, ofRatio,
    nearestBits_congr (pow_ten_pos _) (pow_ten_pos _) h]

/-- Powers of ten can as well be written as zeros. -/
theorem toFloat_mul_pow (negative : Bool) (k n : Nat) :
    toFloat ⟨negative, k * Nat.pow 10 n, 0⟩ = toFloat ⟨negative, k, n⟩ := by
  refine toFloat_congr rfl ?_
  simp

/-- **Zeros that the digits end with do not matter.** -/
theorem toFloat_strip (d : Decimal) : d.strip.toFloat = d.toFloat := by
  fun_induction strip d with
  | case1 d h ih =>
    rw [ih]
    refine toFloat_congr rfl ?_
    obtain ⟨k, hk⟩ : ∃ k, d.digits = k * 10 := ⟨d.digits / 10, by omega⟩
    simp only [hk, Nat.mul_div_cancel k (show 0 < 10 by decide)]
    have hpow : ∀ n, Nat.pow 10 (n + 1) = Nat.pow 10 n * 10 := fun n => rfl
    rcases Int.lt_or_le d.exponent 0 with hexp | hexp
    · obtain ⟨n, hn⟩ : ∃ n : Nat, d.exponent = -(n + 1) := ⟨(-d.exponent - 1).toNat, by omega⟩
      have h0 : (-(n + 1) + 1 : Int).toNat = 0 := by omega
      have h1 : (-(n + 1) : Int).toNat = 0 := by omega
      have h2 : (-(-(n + 1) + 1) : Int).toNat = n := by omega
      have h3 : (-(-(n + 1)) : Int).toNat = n + 1 := by omega
      rw [hn, h0, h1, h2, h3, hpow]
      ring
    · obtain ⟨n, hn⟩ : ∃ n : Nat, d.exponent = n := ⟨d.exponent.toNat, by omega⟩
      have h0 : (n + 1 : Int).toNat = n + 1 := by omega
      have h1 : (n : Int).toNat = n := by omega
      have h2 : (-(n + 1) : Int).toNat = 0 := by omega
      have h3 : (-n : Int).toNat = 0 := by omega
      rw [hn, h0, h1, h2, h3, hpow]
      ring
  | case2 d h => rfl

end Decimal

end Spreadsheet
