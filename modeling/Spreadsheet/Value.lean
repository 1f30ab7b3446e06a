import Spreadsheet.Marker
import Spreadsheet.Number.Shortest
import Spreadsheet.Text.Blank
import Spreadsheet.Text.Lower

/-! # Values

A scalar is what one cell holds: nothing, a number, a text or a truth value. A formula works on
values: a scalar, or the scalars of a range, row by row. Cells pass their values on as text:
`Scalar.shown` writes a scalar and `Scalar.ofShown` reads it.

`Scalar.order` compares two scalars: as numbers if both have one, and otherwise by their texts
without regard to case. -/

namespace Spreadsheet

namespace Number

/-- The number that a text writes: a decimal, with blanks around it. -/
def read? (s : String) : Option Float := (Decimal.read? (Text.trim s.toList)).map Decimal.toFloat

/-- A number as a cell shows it: the marker of an error unless it is finite, and zero without a
sign. -/
def shown (x : Float) : String :=
  if !x.isFinite then Marker.error.text else if x == 0 then "0" else text x

end Number

/-- What one cell holds. -/
inductive Scalar where
  | empty
  | number (x : Float)
  | text (s : String)
  | boolean (b : Bool)
  deriving DecidableEq

namespace Scalar

/-- The scalar as text; nothing is the empty text. -/
def shown : Scalar → String
  | empty => ""
  | number x => Number.shown x
  | text s => s
  | boolean true => "TRUE"
  | boolean false => "FALSE"

/-- The scalar that a cell with the given text passes on. Markers and numbers beyond the largest
double count as zero. -/
def ofShown (s : String) : Scalar :=
  if s = "" then empty
  else if (Marker.ofText? s).isSome then number 0
  else
    match Number.read? s with
    | some x => number (if x.isFinite then x else 0)
    | none => if s = "TRUE" then boolean true else if s = "FALSE" then boolean false else text s

/-- The number of a scalar that is a number or a truth value. -/
def number? : Scalar → Option Float
  | number x => some x
  | boolean b => some (if b then 1 else 0)
  | _ => none

/-- The number that arithmetic takes a scalar for: a text counts as the number it writes, and as
zero if it writes none or one beyond the largest double. -/
def toNumber : Scalar → Float
  | empty => 0
  | number x => if x.isNaN then 0 else x
  | boolean b => if b then 1 else 0
  | text s =>
    match Number.read? s with
    | some x => if x.isFinite then x else 0
    | none => 0

/-- Whether a condition counts as true. -/
def isTrue : Scalar → Bool
  | empty => false
  | number x => x != 0 && !x.isNaN
  | boolean b => b
  | text s => s != "" && s.toList.map Text.smallLetter != "false".toList

def isEmpty : Scalar → Bool
  | empty => true
  | _ => false

/-- The number that a comparison takes a scalar for; nothing counts as zero. -/
def comparable? : Scalar → Option Float
  | empty => some 0
  | s => s.number?

/-- How two scalars compare. No number is equal to every number. -/
def order (a b : Scalar) : Ordering :=
  match a.comparable?, b.comparable? with
  | some x, some y => if x < y then .lt else if y < x then .gt else .eq
  | _, _ => compareOfLessAndEq (Text.lower a.shown.toList) (Text.lower b.shown.toList)

end Scalar

/-- What a formula works on. -/
inductive Value where
  | scalar (s : Scalar)
  /-- The cells of a range, row by row. -/
  | array (cells : List Scalar)
  deriving DecidableEq

namespace Value

abbrev number (x : Float) : Value := scalar (.number x)

abbrev text (s : String) : Value := scalar (.text s)

abbrev boolean (b : Bool) : Value := scalar (.boolean b)

/-- The scalar that an operator takes a value for: the first one of an array. -/
def first : Value → Scalar
  | scalar s => s
  | array cells => cells.headD .empty

def scalars : Value → List Scalar
  | scalar s => [s]
  | array cells => cells

/-- The number that arithmetic takes a value for. -/
def toNumber (v : Value) : Float := v.first.toNumber

/-- Whether a condition counts as true. -/
def isTrue (v : Value) : Bool := v.first.isTrue

/-- The result of a formula as its cell shows it: a bare empty cell is zero. -/
def shown : Value → String
  | scalar .empty => "0"
  | v => v.first.shown

end Value

end Spreadsheet
