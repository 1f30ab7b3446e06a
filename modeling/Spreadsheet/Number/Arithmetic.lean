/-! # Arithmetic of aggregates and rounding

What the functions of a sheet do with doubles beyond the four operations: sums and products from
left to right, the least and the greatest number, an order of all doubles, powers by repeated
squaring, and rounding to a number of decimal places. -/

namespace Spreadsheet.Number

/-- The sum from left to right. The empty sum is negative zero, which changes no sum it begins. -/
def sum (xs : List Float) : Float := xs.foldl (· + ·) (-0.0)

/-- The product from left to right. -/
def product (xs : List Float) : Float := xs.foldl (· * ·) 1

/-- The lesser of two numbers, the first of two equal ones; a number rather than no number. -/
def lesser (x y : Float) : Float := if x.isNaN then y else if y < x then y else x

/-- The greater of two numbers, the first of two equal ones; a number rather than no number. -/
def greater (x y : Float) : Float := if x.isNaN then y else if x < y then y else x

def least? : List Float → Option Float
  | [] => none
  | x :: xs => some (xs.foldl lesser x)

def greatest? : List Float → Option Float
  | [] => none
  | x :: xs => some (xs.foldl greater x)

/-- The place of a double among all doubles: negative before positive, then by size. -/
def rank (x : Float) : Int :=
  let n := x.toBits.toNat
  if n < 0x8000000000000000 then n else 0x7FFFFFFFFFFFFFFF - n

def sorted (xs : List Float) : List Float := xs.mergeSort fun x y => rank x ≤ rank y

def mean? (xs : List Float) : Option Float :=
  if xs.isEmpty then none else some (sum xs / Float.ofNat xs.length)

/-- The middle number of the sorted list, or the mean of the two middle ones. -/
def median? (xs : List Float) : Option Float :=
  let ys := sorted xs
  let middle := ys.length / 2
  match ys[middle]? with
  | none => none
  | some y =>
    if ys.length % 2 = 0 then some ((ys.getD (middle - 1) 0 + y) / 2) else some y

/-- The variance of a sample: the squares of the distances from the mean, summed and divided by one
less than the size of the sample. -/
def variance? (xs : List Float) : Option Float :=
  match mean? xs with
  | none => none
  | some m =>
    if xs.length < 2 then none
    else some (sum (xs.map fun x => (x - m) * (x - m)) / Float.ofNat (xs.length - 1))

/-- `r * x ^ n` by repeated squaring: a factor for every binary digit of `n`, the lowest first. -/
def powerOnto (r x : Float) (n : Nat) : Float :=
  let r := if n % 2 = 1 then r * x else r
  if n / 2 = 0 then r else powerOnto r (x * x) (n / 2)
termination_by n
decreasing_by omega

/-- `10 ^ n`. -/
def powerOfTen (n : Nat) : Float := powerOnto 1 10 n

/-- The whole part of a number as a 32-bit integer, the nearest one for numbers outside, zero for
no number. -/
def toInt32 (x : Float) : Int := x.toInt32.toInt

/-- The number rounded to `places` decimal places, a half away from zero; a negative count of
places rounds before the point. -/
def roundTo (x : Float) (places : Int) : Float :=
  if 0 ≤ places then
    let scale := powerOfTen places.toNat
    (x * scale).round / scale
  else
    let scale := powerOfTen (-places).toNat
    (x / scale).round * scale

/-- A multiple of `step` next to the number, chosen by `whole` on the quotient; zero if there is no
step. -/
def toMultiple (whole : Float → Float) (x step : Float) : Float :=
  if step == 0 then 0 else whole (x / step) * step

end Spreadsheet.Number
