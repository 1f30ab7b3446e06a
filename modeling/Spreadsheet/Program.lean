import Spreadsheet.Limits
import Spreadsheet.Token

/-! # Programs

A formula is compiled to a program for a stack of values: operands come before the operator or the
call that uses them, so no parentheses are left. `Program.written` writes a program in this order.
-/

namespace Spreadsheet

/-- What a formula computes with. -/
inductive Operand where
  | number (x : Float)
  | text (s : String)
  | ref (a : Address)
  | range (r : Range)
  deriving DecidableEq

/-- One step of a program. -/
inductive Instruction where
  /-- Put an operand on the stack. -/
  | push (o : Operand)
  /-- Replace the two topmost values by what an operator makes of them. -/
  | operator (o : Operator)
  /-- Negate the topmost value. -/
  | negate
  /-- Replace the topmost `count` values by the result of a function. -/
  | call (name : String) (count : Nat)
  /-- The formula is malformed here. -/
  | failure (m : Marker)
  deriving DecidableEq

/-- A compiled formula. -/
abbrev Program := List Instruction

namespace Operand

def written : Operand → String
  | number x => Number.text x
  | text s => String.ofList (Token.quote s.toList)
  | ref a => a.a1
  | range r => r.a1

/-- The cells that an operand reads, in order. -/
def cells : Operand → List Address
  | ref a => [a]
  | range r => r.cells
  | _ => []

end Operand

def Instruction.written : Instruction → String
  | push o => o.written
  | operator o => o.symbol
  | negate => "NEG"
  | call name count => name ++ "/" ++ Numeral.text count
  | failure m => m.text

namespace Program

/-- The text of a program, with a space between two instructions. -/
def written (p : Program) : String := String.intercalate " " (p.map Instruction.written)

/-- The first place where the formula is malformed. -/
def firstFailure? (p : Program) : Option Marker :=
  p.findSome? fun
    | .failure m => some m
    | _ => none

/-- The cells that a program reads, in order; a malformed one reads none. -/
def cells (p : Program) : List Address :=
  if p.firstFailure?.isSome then []
  else p.flatMap fun
    | .push o => o.cells
    | _ => []

end Program

end Spreadsheet
