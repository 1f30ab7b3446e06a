/-! # Rounding to double precision

A finite double is a whole number of *units* of size `2 ^ -1074`, the smallest positive double:
`units` counts them. Its bit pattern without the sign orders the doubles by size, and
`nearestBits num den` is the pattern of the double nearest to the ratio `num / den`, a half going
to the even neighbour and everything beyond the largest double to infinity. -/

namespace Spreadsheet.Number

/-- The quotient rounded to the nearest whole number, a half to the even one. -/
def divEven (a b : Nat) : Nat :=
  let q := a / b
  let r := a % b
  if 2 * r < b then q else if b < 2 * r then q + 1 else q + q % 2

/-- The pattern of infinity: above those of all finite doubles. -/
def infinityBits : Nat := 0x7FF <<< 52

/-- The pattern of the double nearest to `num / den`. With a quotient of `n + 53` bits in units,
the last `n` of them are rounded away. -/
def nearestBits (num den : Nat) : Nat :=
  let a := num <<< 1074
  let n := Nat.log2 (a / den) - 52
  min (n <<< 52 + divEven a (den <<< n)) infinityBits

/-- The double with the given sign and pattern. -/
def ofBits (negative : Bool) (bits : Nat) : Float :=
  Float.ofBits (UInt64.ofNat (if negative then 1 <<< 63 + bits else bits))

/-- The double with the given sign that is nearest to `num / den` in size. -/
def ofRatio (negative : Bool) (num den : Nat) : Float := ofBits negative (nearestBits num den)

/-- The pattern of a double without its sign. -/
def sizeBits (x : Float) : Nat := x.toBits.toNat % (1 <<< 63)

/-- Whether the sign of a double is negative; zero has both signs. -/
def isNegative (x : Float) : Bool := 1 <<< 63 ≤ x.toBits.toNat

/-- The number of units that a pattern of a finite double stands for: the last 52 bits, with a
leading one unless the exponent field is zero, shifted by the exponent. -/
def unitsOfBits (bits : Nat) : Nat :=
  let e := bits >>> 52
  let f := bits % (1 <<< 52)
  if e = 0 then f else (1 <<< 52 + f) <<< (e - 1)

/-- The size of a finite double in units. -/
def units (x : Float) : Nat := unitsOfBits (sizeBits x)

theorem divEven_mul_right {q b : Nat} (h : 0 < b) : divEven (q * b) b = q := by
  simp [divEven, Nat.mul_div_left q h, Nat.mul_mod_left, h]

theorem div_le_divEven (a b : Nat) : a / b ≤ divEven a b := by
  simp only [divEven]
  split
  · omega
  · split <;> omega

theorem one_shiftLeft_pos {n : Nat} : 0 < 1 <<< n := by
  rw [Nat.shiftLeft_eq, Nat.one_mul]
  exact Nat.two_pow_pos n

theorem unitsOfBits_eq {bits : Nat} : unitsOfBits bits =
    if bits >>> 52 = 0 then bits % (1 <<< 52)
    else (1 <<< 52 + bits % (1 <<< 52)) * 1 <<< (bits >>> 52 - 1) := by
  simp only [unitsOfBits, Nat.shiftLeft_eq, Nat.one_mul]

theorem unitsOfBits_pos_log2 {bits : Nat} (h : 1 <<< 52 ≤ bits) :
    Nat.log2 (unitsOfBits bits) = bits >>> 52 + 51 := by
  simp only [unitsOfBits_eq, Nat.shiftLeft_eq, Nat.shiftRight_eq_div_pow, Nat.one_mul] at *
  have he : 1 ≤ bits / 2 ^ 52 := (Nat.le_div_iff_mul_le (by decide)).mpr (by omega)
  have hf : bits % 2 ^ 52 < 2 ^ 52 := Nat.mod_lt _ (by decide)
  have h0 : (2 ^ 52 + bits % 2 ^ 52) * 2 ^ (bits / 2 ^ 52 - 1) ≠ 0 := by
    have := Nat.two_pow_pos (bits / 2 ^ 52 - 1)
    simp only [ne_eq, Nat.mul_eq_zero, not_or]; omega
  rw [if_neg (show ¬bits / 2 ^ 52 = 0 by omega), Nat.log2_eq_iff h0]
  rw [show bits / 2 ^ 52 + 51 = 52 + (bits / 2 ^ 52 - 1) by omega, Nat.pow_add,
    show 52 + (bits / 2 ^ 52 - 1) + 1 = 53 + (bits / 2 ^ 52 - 1) by omega, Nat.pow_add]
  have := Nat.two_pow_pos (bits / 2 ^ 52 - 1)
  constructor
  · exact Nat.mul_le_mul_right _ (by omega)
  · exact Nat.mul_lt_mul_of_pos_right (by omega) this

/-- **The double nearest to a double is that double.** -/
theorem nearestBits_units {bits : Nat} (h : bits ≤ infinityBits) :
    nearestBits (unitsOfBits bits) (1 <<< 1074) = bits := by
  unfold nearestBits
  -- a name for the number of places keeps the power from being computed
  generalize 1074 = places
  have hp : 0 < 1 <<< places := one_shiftLeft_pos
  have hunit : unitsOfBits bits <<< places = unitsOfBits bits * 1 <<< places := by
    rw [Nat.shiftLeft_eq, Nat.shiftLeft_eq, Nat.one_mul]
  dsimp only
  rw [hunit]
  generalize 1 <<< places = p at hp
  rw [Nat.mul_div_left _ hp]
  simp only [Nat.shiftLeft_eq, infinityBits] at *
  by_cases hs : bits < 2 ^ 52
  · have hu : unitsOfBits bits = bits := by
      rw [unitsOfBits, Nat.shiftRight_eq_div_pow, Nat.div_eq_of_lt hs, if_pos rfl, Nat.shiftLeft_eq,
        Nat.one_mul, Nat.mod_eq_of_lt hs]
    have hn : Nat.log2 bits - 52 = 0 := by
      by_cases h0 : bits = 0
      · subst h0; decide
      · have := (Nat.log2_lt h0).mpr hs; omega
    rw [hu, hn, Nat.pow_zero, Nat.mul_one, divEven_mul_right hp]
    omega
  · have hs : 2 ^ 52 ≤ bits := by omega
    have hn : Nat.log2 (unitsOfBits bits) - 52 = bits / 2 ^ 52 - 1 := by
      rw [unitsOfBits_pos_log2 (by rwa [Nat.shiftLeft_eq, Nat.one_mul]), Nat.shiftRight_eq_div_pow]
      omega
    have he : 1 ≤ bits / 2 ^ 52 := (Nat.le_div_iff_mul_le (by decide)).mpr (by omega)
    have hu : unitsOfBits bits = (2 ^ 52 + bits % 2 ^ 52) * 2 ^ (bits / 2 ^ 52 - 1) := by
      simp only [unitsOfBits_eq, Nat.shiftLeft_eq, Nat.shiftRight_eq_div_pow, Nat.one_mul]
      rw [if_neg (show ¬bits / 2 ^ 52 = 0 by omega)]
    rw [hn, hu, Nat.mul_comm p, Nat.mul_assoc,
      divEven_mul_right (Nat.mul_pos (Nat.two_pow_pos _) hp)]
    omega

end Spreadsheet.Number
