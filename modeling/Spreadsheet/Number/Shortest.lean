import Spreadsheet.Number.Decimal

/-! # The shortest decimal of a double

Among the decimals that are read back as a given double, `Number.shortest` takes one with the
fewest digits, and of those the nearest to the double, the larger one if two are equally near. It
tries one grid of decimals after the other, from one significant digit upwards; only the two
neighbours of the double on a grid can be nearest. Behind the grids stands the exact value, so the
result is always read back. -/

namespace Spreadsheet.Number

/-- The number of decimal digits of a positive number, found from its length in bits. -/
def digitCount (n : Nat) : Nat :=
  let k := Nat.log2 n * 30103 / 100000
  if n < Nat.pow 10 k then k else if n < Nat.pow 10 (k + 1) then k + 1 else k + 2

/-- The two multiples of `10 ^ g` next to `n`, in multiples of `10 ^ g`, the nearer one first. -/
def neighbours (n g : Nat) : List Nat :=
  let step := Nat.pow 10 g
  let q := n / step
  if 2 * (n % step) < step then [q, q + 1] else [q + 1, q]

/-- The size of a finite double, in multiples of `10 ^ -1074`. -/
def exactDigits (x : Float) : Nat := units x * Nat.pow 5 1074

/-- The first neighbour of a finite double on the grid of `n` significant digits that is read back
as the double. -/
def onGrid? (x : Float) (n : Nat) : Option Decimal :=
  let exact := exactDigits x
  let g := digitCount exact - n
  ((neighbours exact g).map fun c => ⟨isNegative x, c, (g : Int) - 1074⟩).find? fun d =>
    d.toFloat.toBits == x.toBits

/-- **The shortest decimal that is read back as a given finite double.** -/
def shortest (x : Float) : Decimal :=
  if units x = 0 then ⟨isNegative x, 0, 0⟩
  else (((List.range 17).findSome? fun i => onGrid? x (i + 1)).getD
    ⟨isNegative x, exactDigits x, -1074⟩).strip

/-- A number as text, with the fewest digits that are read back and never an exponent. -/
def text (x : Float) : String :=
  if x.isNaN then "NaN"
  else if x.isInf then if isNegative x then "-inf" else "inf"
  else String.ofList (shortest x).plain

end Spreadsheet.Number
