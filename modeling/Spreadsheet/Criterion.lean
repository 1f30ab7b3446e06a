import Spreadsheet.Operator

/-! # Criteria

`COUNTIF` and `SUMIF` pick the cells of a range that meet a criterion. A criterion is a scalar: if
its text is a comparison sign and a number, it asks how the number of a cell compares; otherwise it
asks for exactly that text. -/

namespace Spreadsheet

/-- What cells are asked for. -/
inductive Criterion where
  /-- A number that compares with the given one as asked. -/
  | number (c : Comparison) (x : Float)
  /-- The given text. -/
  | text (s : String)
  deriving DecidableEq

namespace Criterion

/-- The comparisons in the order in which their signs are looked for: a sign comes before the signs
it begins with. -/
def signs : List Comparison := [.greaterEqual, .lessEqual, .notEqual, .greater, .less, .equal]

/-- The comparison sign that a text begins with, and what follows it. -/
def splitSign? (cs : List Char) : Option (Comparison × List Char) :=
  signs.findSome? fun c =>
    let sign := c.symbol.toList
    if sign.isPrefixOf cs then some (c, cs.drop sign.length) else none

def ofText (s : String) : Criterion :=
  match splitSign? s.toList with
  | none => text s
  | some (c, rest) =>
    match Number.read? (String.ofList rest) with
    | none => text s
    | some x => number c x

def ofScalar (s : Scalar) : Criterion := ofText s.shown

/-- Whether a cell meets the criterion. -/
def holds (c : Criterion) (s : Scalar) : Bool :=
  match c with
  | number c x =>
    match s.number? with
    | some y => c.test y x
    | none => false
  | text t => s.shown == t

end Criterion

end Spreadsheet
