import Spreadsheet.Value

/-! # Operators

The eleven binary operators of formulas, five for arithmetic and six for comparison: their symbols,
how strongly they bind, and what they compute. All group from left to right except the power.
Negation binds tighter than any of them. -/

namespace Spreadsheet

inductive Arithmetic where
  | add
  | subtract
  | multiply
  | divide
  | power
  deriving DecidableEq, Repr

namespace Arithmetic

def symbol : Arithmetic → String
  | add => "+"
  | subtract => "-"
  | multiply => "*"
  | divide => "/"
  | power => "^"

/-- The result of an operator; a division by zero is zero. -/
def compute (o : Arithmetic) (x y : Float) : Float :=
  match o with
  | add => x + y
  | subtract => x - y
  | multiply => x * y
  | divide => if y == 0 then 0 else x / y
  | power => x.pow y

end Arithmetic

inductive Comparison where
  | equal
  | notEqual
  | less
  | lessEqual
  | greater
  | greaterEqual
  deriving DecidableEq, Repr

namespace Comparison

def symbol : Comparison → String
  | equal => "="
  | notEqual => "<>"
  | less => "<"
  | lessEqual => "<="
  | greater => ">"
  | greaterEqual => ">="

/-- Whether operands that compare in the given way satisfy the comparison. -/
def holds (c : Comparison) (order : Ordering) : Bool :=
  match c with
  | equal => order == .eq
  | notEqual => order != .eq
  | less => order == .lt
  | lessEqual => order != .gt
  | greater => order == .gt
  | greaterEqual => order != .lt

/-- Whether two doubles satisfy the comparison; no number satisfies only that it is not equal. -/
def test (c : Comparison) (x y : Float) : Bool :=
  match c with
  | equal => x == y
  | notEqual => x != y
  | less => x < y
  | lessEqual => x ≤ y
  | greater => y < x
  | greaterEqual => y ≤ x

end Comparison

inductive Operator where
  | arithmetic (a : Arithmetic)
  | comparison (c : Comparison)
  deriving DecidableEq, Repr

namespace Operator

abbrev add : Operator := arithmetic .add

abbrev subtract : Operator := arithmetic .subtract

/-- All operators, the arithmetic ones first. -/
def all : List Operator :=
  [arithmetic .add, arithmetic .subtract, arithmetic .multiply, arithmetic .divide,
    arithmetic .power, comparison .equal, comparison .notEqual, comparison .less,
    comparison .lessEqual, comparison .greater, comparison .greaterEqual]

def symbol : Operator → String
  | arithmetic a => a.symbol
  | comparison c => c.symbol

/-- How strongly an operator binds: a higher one binds tighter. -/
def precedence : Operator → Nat
  | comparison _ => 1
  | arithmetic .add | arithmetic .subtract => 2
  | arithmetic .multiply | arithmetic .divide => 3
  | arithmetic .power => 4

/-- How strongly negation binds. -/
def negation : Nat := 5

/-- Whether a chain of the operator groups from right to left. -/
def groupsRight (o : Operator) : Bool := o == arithmetic .power

def isComparison : Operator → Bool
  | comparison _ => true
  | arithmetic _ => false

/-- The result of an operator on two values. -/
def apply (o : Operator) (a b : Value) : Value :=
  match o with
  | arithmetic o => .number (o.compute a.toNumber b.toNumber)
  | comparison c => .boolean (c.holds (a.first.order b.first))

theorem mem_all (o : Operator) : o ∈ all := by
  rcases o with a | c
  · cases a <;> decide
  · cases c <;> decide

end Operator

end Spreadsheet
