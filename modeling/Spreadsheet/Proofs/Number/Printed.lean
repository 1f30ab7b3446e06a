import Mathlib
import Spreadsheet.Proofs.Number.Nearest
import Spreadsheet.Proofs.Text.Joining
import Spreadsheet.Value

/-! # Printed numbers

A finite double is printed as a decimal that is read back as the same double.

* `toFloat_shortest`: the shortest decimal of a double is read back as the double. Its digits are
  tried, and the exact value stands behind all that are tried.
* `Decimal.splitPoint_plainSize`: what stands before and behind the point of a decimal without an
  exponent is the decimal again, whatever follows that does not go on with it.
* `exists_shown`: a finite double that is not negative is shown as such a decimal. -/

namespace Spreadsheet

namespace Number

open Float.Model UnpackedFloat

variable {x : Float}

/-! ### The bits of a double -/

/-- A double is finite if it is a number and no infinity. -/
theorem isFinite_iff : x.isFinite = true ↔ x.isNaN = false ∧ x.isInf = false := by
  show x.toModel.unpack.isFinite = true ↔
    x.toModel.unpack.isNaN = false ∧ x.toModel.unpack.isInf = false
  cases x.toModel.unpack with
  | infinity s => decide +revert
  | notANumber => decide
  | zero s => exact ⟨fun _ => ⟨rfl, rfl⟩, fun _ => rfl⟩
  | finite s m e hm => exact ⟨fun _ => ⟨rfl, rfl⟩, fun _ => rfl⟩

/-- A double is its size and its sign. -/
theorem ofBits_sizeBits (x : Float) : ofBits (isNegative x) (sizeBits x) = x := by
  have hbits := x.toBits.toNat_lt
  have h : (if isNegative x = true then 1 <<< 63 + sizeBits x else sizeBits x) =
      x.toBits.toNat := by
    simp only [isNegative, sizeBits, decide_eq_true_eq, Nat.shiftLeft_eq]
    split <;> omega
  rw [ofBits, h, UInt64.ofNat_toNat, Float.ofBits_toBits]

theorem toNat_unpackSign (x : Float) :
    (@unpackSign .binary64 x.toModel.toBits.toBitVec).toNat = x.toBits.toNat / 2 ^ 63 % 2 ^ 1 := by
  rw [unpackSign_def, BitVec.extractLsb'_toNat, Nat.shiftRight_eq_div_pow]
  rfl

theorem toNat_unpackExponent (x : Float) :
    (@unpackExponent .binary64 x.toModel.toBits.toBitVec).toNat =
      x.toBits.toNat / 2 ^ 52 % 2 ^ 11 := by
  rw [unpackExponent_def, BitVec.extractLsb'_toNat, Nat.shiftRight_eq_div_pow]
  rfl

theorem toNat_unpackMantissa (x : Float) :
    (@unpackMantissa .binary64 x.toModel.toBits.toBitVec).toNat = x.toBits.toNat % 2 ^ 52 := by
  rw [unpackMantissa_def, BitVec.extractLsb'_toNat]
  rfl

/-- A finite double is smaller than infinity. -/
theorem sizeBits_lt (h : x.isFinite = true) : sizeBits x < infinityBits := by
  have hexp : @unpackExponent .binary64 x.toModel.toBits.toBitVec ≠ -1#11 := by
    intro he
    simp only [Float.isFinite, Float.Model.isFinite, Float.Model.unpack, UnpackedFloat.unpack,
      if_pos he] at h
    split at h <;> cases h
  have hn : x.toBits.toNat / 2 ^ 52 % 2 ^ 11 ≠ 2047 := fun hn =>
    hexp (BitVec.eq_of_toNat_eq ((toNat_unpackExponent x).trans hn))
  have hbits := x.toBits.toNat_lt
  simp only [sizeBits, infinityBits, Nat.shiftLeft_eq]
  omega

/-- Only a zero can have a sign and not be negative. -/
theorem isNegative_of_nonneg (h : 0 ≤ x) (h0 : (x == 0) = false) : isNegative x = false := by
  by_contra hneg
  have hbit : x.toBits.toNat / 2 ^ 63 % 2 ^ 1 = 1 := by
    have hbits := x.toBits.toNat_lt
    simp only [isNegative, Nat.shiftLeft_eq, decide_eq_true_eq, Bool.not_eq_false] at hneg
    omega
  have hsign : @unpackSign .binary64 x.toModel.toBits.toBitVec = 1#1 :=
    BitVec.eq_of_toNat_eq ((toNat_unpackSign x).trans hbit)
  have hle : (UnpackedFloat.zero .positive).le x.toModel.unpack = true := of_decide_eq_true h
  have hne : x.toModel.unpack.beq (.zero .positive) = false := h0
  simp only [Float.Model.unpack, UnpackedFloat.unpack, hsign] at hle hne
  have hnegative : Sign.ofBitVec 1#1 = .negative := rfl
  rw [hnegative] at hle hne
  split_ifs at hle hne
  · cases hle
  · cases hle
  · cases hne
  · cases hle
  · cases hle

/-- Two doubles are zero. -/
theorem eq_of_beq_zero (h : (x == 0) = true) : x = 0 ∨ x = -0.0 := by
  have hbeq : x.toModel.unpack.beq (.zero .positive) = true := h
  obtain ⟨s, hzero⟩ : ∃ s, x.toModel.unpack = .zero s := by
    cases hx : x.toModel.unpack with
    | zero s => exact ⟨s, rfl⟩
    | notANumber =>
      rw [hx] at hbeq
      cases hbeq
    | infinity s =>
      rw [hx] at hbeq
      cases s <;> cases hbeq
    | finite s m e hm =>
      rw [hx] at hbeq
      cases s <;> cases hbeq
  have hfields : @unpackExponent .binary64 x.toModel.toBits.toBitVec = 0#11 ∧
      @unpackMantissa .binary64 x.toModel.toBits.toBitVec = 0#52 := by
    simp only [Float.Model.unpack, UnpackedFloat.unpack] at hzero
    split_ifs at hzero with h1 h2 h3 h4
    exact ⟨h3, h4⟩
  have hexponent : x.toBits.toNat / 2 ^ 52 % 2 ^ 11 = 0 :=
    (toNat_unpackExponent x).symm.trans (congrArg BitVec.toNat hfields.1)
  have hmantissa : x.toBits.toNat % 2 ^ 52 = 0 :=
    (toNat_unpackMantissa x).symm.trans (congrArg BitVec.toNat hfields.2)
  have hsize : sizeBits x = 0 := by
    have hbits := x.toBits.toNat_lt
    simp only [sizeBits, Nat.shiftLeft_eq]
    omega
  have hx := ofBits_sizeBits x
  rw [hsize] at hx
  cases hsign : isNegative x with
  | false =>
    rw [hsign] at hx
    exact Or.inl (hx.symm.trans (by decide))
  | true =>
    rw [hsign] at hx
    exact Or.inr (hx.symm.trans (by decide))

/-! ### The shortest decimal -/

/-- The size of a double in units is read back as the double. -/
theorem ofRatio_units (h : x.isFinite = true) :
    ofRatio (isNegative x) (units x) (1 <<< 1074) = x := by
  rw [ofRatio, units, nearestBits_units (sizeBits_lt h).le, ofBits_sizeBits]

/-- A number of binary places has as many decimal places. -/
theorem toFloat_decimalPlaces (negative : Bool) (k n : Nat) :
    Decimal.toFloat ⟨negative, k * Nat.pow 5 n, -(n : Int)⟩ = ofRatio negative k (1 <<< n) := by
  have h5 : 0 < Nat.pow 5 n := Nat.pow_pos (by decide)
  have hpow : Nat.pow 10 n = Nat.pow 5 n * 1 <<< n := by
    rw [Nat.shiftLeft_eq, Nat.one_mul]
    exact Nat.mul_pow 5 2 n
  have hnum : (-(n : Int)).toNat = 0 := by omega
  have hden : (-(-(n : Int))).toNat = n := by omega
  have hone : Nat.pow 10 0 = 1 := rfl
  simp only [Decimal.toFloat_eq, hnum, hden, hone, Nat.mul_one, hpow, ofRatio, Nat.mul_comm k,
    nearestBits_mul_left h5]

theorem toFloat_exactDigits (h : x.isFinite = true) :
    Decimal.toFloat ⟨isNegative x, exactDigits x, -1074⟩ = x := by
  -- a name for the number of places keeps the power from being computed
  obtain ⟨n, hn⟩ : ∃ n : Nat, n = 1074 := ⟨_, rfl⟩
  have hdigits : exactDigits x = units x * Nat.pow 5 n := by rw [exactDigits, ← hn]
  have hexponent : (-1074 : Int) = -(n : Int) := by omega
  rw [hdigits, hexponent, toFloat_decimalPlaces, hn, ofRatio_units h]

theorem toFloat_of_onGrid? {n : Nat} {d : Decimal} (h : onGrid? x n = some d) : d.toFloat = x :=
  Float.toBits_inj.mp (by simpa using List.find?_some h)

theorem negative_of_onGrid? {n : Nat} {d : Decimal} (h : onGrid? x n = some d) :
    d.negative = isNegative x := by
  obtain ⟨c, -, rfl⟩ := List.mem_map.mp (List.mem_of_find?_eq_some h)
  rfl

theorem negative_strip (d : Decimal) : d.strip.negative = d.negative := by
  fun_induction Decimal.strip d with
  | case1 d h ih => exact ih
  | case2 d h => rfl

/-- The shortest decimal, or the exact one, before its last zeros are taken from it. -/
theorem exists_shortest (h : x.isFinite = true) :
    ∃ d : Decimal, d.toFloat = x ∧ d.negative = isNegative x ∧
      (shortest x = d ∨ shortest x = d.strip) := by
  by_cases h0 : units x = 0
  · refine ⟨⟨isNegative x, 0, 0⟩, ?_, rfl, Or.inl (if_pos h0)⟩
    have hx := ofRatio_units h
    rw [h0, ofRatio, nearestBits_zero one_shiftLeft_pos] at hx
    exact hx
  · cases hgrid : (List.range 17).findSome? fun i => onGrid? x (i + 1) with
    | some d =>
      obtain ⟨i, -, hd⟩ := List.exists_of_findSome?_eq_some hgrid
      refine ⟨d, toFloat_of_onGrid? hd, negative_of_onGrid? hd, Or.inr ?_⟩
      rw [shortest, if_neg h0, hgrid, Option.getD_some]
    | none =>
      refine ⟨⟨isNegative x, exactDigits x, -1074⟩, toFloat_exactDigits h, rfl, Or.inr ?_⟩
      rw [shortest, if_neg h0, hgrid, Option.getD_none]

/-- **The shortest decimal of a double is read back as the double.** -/
theorem toFloat_shortest (h : x.isFinite = true) : (shortest x).toFloat = x := by
  obtain ⟨d, hd, -, heq | heq⟩ := exists_shortest h
  · rw [heq, hd]
  · rw [heq, Decimal.toFloat_strip, hd]

theorem negative_shortest (h : x.isFinite = true) : (shortest x).negative = isNegative x := by
  obtain ⟨d, -, hd, heq | heq⟩ := exists_shortest h
  · rw [heq, hd]
  · rw [heq, negative_strip, hd]

end Number

/-! ### Decimals without an exponent -/

namespace Decimal

open Numeral

variable {whole places rest : List Char}

theorem splitPoint_whole (hw : ∀ c ∈ whole, isDigit c = true)
    (hrest : ∀ c ∈ rest.head?, isDigit c = false ∧ c ≠ '.') :
    splitPoint (whole ++ rest) = (whole, [], rest) := by
  have hstop : ∀ c ∈ rest.head?, isDigit c = false := fun c hc => (hrest c hc).1
  rw [splitPoint, List.takeWhile_append_stop hw hstop, List.dropWhile_append_stop hw hstop]
  split
  · next rest' => exact absurd rfl (hrest '.' rfl).2
  · rfl

theorem splitPoint_point (hw : ∀ c ∈ whole, isDigit c = true)
    (hp : ∀ c ∈ places, isDigit c = true) (hrest : ∀ c ∈ rest.head?, isDigit c = false) :
    splitPoint (whole ++ '.' :: (places ++ rest)) = (whole, places, rest) := by
  have hpoint : ∀ c ∈ ('.' :: (places ++ rest)).head?, isDigit c = false := by
    rintro c ⟨⟩
    rfl
  have htail : (whole ++ '.' :: (places ++ rest)).dropWhile isDigit = '.' :: (places ++ rest) :=
    List.dropWhile_append_stop hw hpoint
  simp only [splitPoint, htail, List.takeWhile_append_stop hw hpoint,
    List.takeWhile_append_stop hp hrest, List.dropWhile_append_stop hp hrest]

/-- The digits of a number of places, before and behind the point. -/
theorem plainSize_negSucc (k n : Nat) : ∃ whole places : List Char,
    plainSize k (.negSucc n) = whole ++ '.' :: places ∧ whole ≠ [] ∧ places.length = n + 1 ∧
      (∀ c ∈ whole ++ places, isDigit c = true) ∧ value (whole ++ places) = k := by
  have hdigits := digits_isDigit k
  have hvalue := value_digits k
  simp only [plainSize]
  generalize Numeral.digits k = ds at *
  split
  · next hlt =>
    refine ⟨_, _, rfl, ?_, by simp; omega, ?_, ?_⟩
    · rw [ne_eq, List.take_eq_nil_iff, not_or]
      exact ⟨by omega, List.length_pos_iff.mp (by omega)⟩
    · rwa [List.take_append_drop]
    · rwa [List.take_append_drop]
  · next hge =>
    refine ⟨['0'], List.replicate (n + 1 - ds.length) '0' ++ ds, rfl, by simp, by simp; omega, ?_,
      ?_⟩
    · intro c hc
      simp only [List.singleton_append, List.mem_cons, List.mem_append, List.mem_replicate] at hc
      rcases hc with rfl | ⟨-, rfl⟩ | hc
      · rfl
      · rfl
      · exact hdigits c hc
    · rw [← List.append_assoc, show ['0'] = List.replicate 1 '0' from rfl,
        List.replicate_append_replicate, value_replicate_zero_append, hvalue]

/-- **A decimal without an exponent is read as the same decimal**, up to a point that follows. -/
theorem splitPoint_plainSize (negative : Bool) (k : Nat) (e : Int)
    (hrest : ∀ c ∈ rest.head?, isDigit c = false ∧ c ≠ '.') : ∃ whole places : List Char,
    splitPoint (plainSize k e ++ rest) = (whole, places, rest) ∧ whole ≠ [] ∧
      toFloat ⟨negative, value (whole ++ places), -places.length⟩ = toFloat ⟨negative, k, e⟩ := by
  cases e with
  | ofNat n =>
    refine ⟨Numeral.digits (k * Nat.pow 10 n), [], splitPoint_whole (digits_isDigit _) hrest,
      digits_ne_nil _, ?_⟩
    rw [List.append_nil, value_digits]
    exact toFloat_mul_pow negative k n
  | negSucc n =>
    obtain ⟨whole, places, heq, hne, hlength, hdigits, hvalue⟩ := plainSize_negSucc k n
    refine ⟨whole, places, ?_, hne, ?_⟩
    · rw [heq, List.append_assoc, List.cons_append]
      exact splitPoint_point (fun c hc => hdigits c (List.mem_append_left _ hc))
        (fun c hc => hdigits c (List.mem_append_right _ hc)) fun c hc => (hrest c hc).1
    · rw [hvalue, hlength]
      rfl

theorem mem_plainSize {k : Nat} {e : Int} {c : Char} (h : c ∈ plainSize k e) :
    isDigit c = true ∨ c = '.' := by
  cases e with
  | ofNat n => exact Or.inl (digits_isDigit _ c h)
  | negSucc n =>
    obtain ⟨whole, places, heq, -, -, hdigits, -⟩ := plainSize_negSucc k n
    rw [heq, List.mem_append, List.mem_cons] at h
    rcases h with h | h | h
    · exact Or.inl (hdigits c (List.mem_append_left _ h))
    · exact Or.inr h
    · exact Or.inl (hdigits c (List.mem_append_right _ h))

/-- It begins with a digit. -/
theorem head?_plainSize (k : Nat) (e : Int) :
    ∃ c cs, plainSize k e = c :: cs ∧ isDigit c = true := by
  obtain ⟨whole, places, hsplit, hne, -⟩ :=
    @splitPoint_plainSize [] false k e (by simp)
  rw [List.append_nil] at hsplit
  have hwhole : (plainSize k e).takeWhile isDigit = whole := by
    unfold splitPoint at hsplit
    split at hsplit <;> exact congrArg Prod.fst hsplit
  cases hcs : plainSize k e with
  | nil =>
    rw [hcs] at hwhole
    exact absurd hwhole.symm hne
  | cons c cs =>
    refine ⟨c, cs, rfl, ?_⟩
    by_contra hc
    rw [hcs, List.takeWhile_cons_of_neg hc] at hwhole
    exact hne hwhole.symm

theorem plainSize_ne_nil (k : Nat) (e : Int) : plainSize k e ≠ [] := by
  obtain ⟨c, cs, hcs, -⟩ := head?_plainSize k e
  rw [hcs]
  exact List.cons_ne_nil c cs

end Decimal

namespace Number

variable {x : Float}

/-- **A finite number that is not negative is shown as a decimal that is read back as the number**,
and zero without a sign. -/
theorem exists_shown (hfinite : x.isFinite = true) (h : 0 ≤ x) : ∃ k e,
    (shown x).toList = Decimal.plainSize k e ∧
      Decimal.toFloat ⟨false, k, e⟩ = if x == 0 then 0 else x := by
  cases h0 : x == 0 with
  | true =>
    refine ⟨0, 0, ?_, rfl⟩
    simp only [shown, hfinite, h0, Bool.not_true, Bool.false_eq_true, if_false, if_true]
    rfl
  | false =>
    have hnegative := (negative_shortest hfinite).trans (isNegative_of_nonneg h h0)
    obtain ⟨hnan, hinf⟩ := isFinite_iff.mp hfinite
    refine ⟨(shortest x).digits, (shortest x).exponent, ?_, ?_⟩
    · simp only [shown, hfinite, h0, text, hnan, hinf, Decimal.plain, hnegative, Bool.not_true,
        Bool.false_eq_true, if_false, String.toList_ofList]
    · rw [if_neg Bool.false_ne_true, ← hnegative]
      exact toFloat_shortest hfinite

end Number

end Spreadsheet
