import Spreadsheet.Number.Rounding
import Spreadsheet.Text.Numeral

/-! # Decimal fractions

A decimal is a whole number of digits, a power of ten and a sign. `Decimal.read?` reads one from
text with an optional point and an optional exponent; `Decimal.toFloat` is the double nearest to
it; `Decimal.plain` writes it without an exponent. -/

namespace Spreadsheet

/-- The number `digits * 10 ^ exponent`, negated if `negative`. -/
structure Decimal where
  /-- Whether the sign is a minus; zero keeps its sign. -/
  negative : Bool
  /-- The digits, as one whole number. -/
  digits : Nat
  /-- The power of ten that the digits are multiplied by. -/
  exponent : Int
  deriving DecidableEq, Repr

namespace Decimal

/-- The double nearest to a decimal. Zero, numbers far above the largest double and numbers far
below half a unit are settled without computing the power of ten. -/
def toFloat (d : Decimal) : Float :=
  if d.digits = 0 then Number.ofBits d.negative 0
  else if 400 < d.exponent then Number.ofBits d.negative Number.infinityBits
  else if Nat.log2 d.digits + 1076 < 3 * (-d.exponent) then Number.ofBits d.negative 0
  else Number.ofRatio d.negative (d.digits * Nat.pow 10 d.exponent.toNat)
    (Nat.pow 10 (-d.exponent).toNat)

/-- A sign in front of a text, and whether it is a minus. -/
def readSign : List Char → Bool × List Char
  | '-' :: rest => (true, rest)
  | '+' :: rest => (false, rest)
  | cs => (false, cs)

/-- The exponent behind the digits: nothing, or `e`, an optional sign and digits. -/
def readExponent? : List Char → Option Int
  | [] => some 0
  | c :: rest =>
    let (negative, ds) := readSign rest
    if (c = 'e' ∨ c = 'E') ∧ ds ≠ [] ∧ ds.all Numeral.isDigit then
      some (if negative then -(Numeral.value ds : Int) else Numeral.value ds)
    else none

/-- The digits before and behind an optional point, and the text that follows. -/
def splitPoint (cs : List Char) : List Char × List Char × List Char :=
  let whole := cs.takeWhile Numeral.isDigit
  match cs.dropWhile Numeral.isDigit with
  | '.' :: rest => (whole, rest.takeWhile Numeral.isDigit, rest.dropWhile Numeral.isDigit)
  | rest => (whole, [], rest)

/-- The decimal that a text writes: an optional sign, digits with at most one point and at least
one digit, and an optional exponent. -/
def read? (cs : List Char) : Option Decimal :=
  let (negative, unsigned) := readSign cs
  let (whole, places, rest) := splitPoint unsigned
  if whole = [] ∧ places = [] then none
  else
    (readExponent? rest).map fun e =>
      ⟨negative, Numeral.value (whole ++ places), e - places.length⟩

/-- The same number without the zeros that its digits end with. -/
def strip (d : Decimal) : Decimal :=
  if d.digits ≠ 0 ∧ d.digits % 10 = 0 then
    strip ⟨d.negative, d.digits / 10, d.exponent + 1⟩
  else d
termination_by d.digits
decreasing_by omega

/-- The digits of a decimal, without its sign and without an exponent. A point has a digit on
either side. -/
def plainSize (digits : Nat) : (exponent : Int) → List Char
  | .ofNat n => Numeral.digits (digits * Nat.pow 10 n)
  | .negSucc n =>
    let ds := Numeral.digits digits
    let places := n + 1
    if places < ds.length then ds.take (ds.length - places) ++ '.' :: ds.drop (ds.length - places)
    else '0' :: '.' :: (List.replicate (places - ds.length) '0' ++ ds)

/-- A decimal without an exponent. -/
def plain (d : Decimal) : List Char :=
  if d.negative then '-' :: plainSize d.digits d.exponent else plainSize d.digits d.exponent

end Decimal

end Spreadsheet
