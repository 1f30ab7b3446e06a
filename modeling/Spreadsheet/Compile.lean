import Spreadsheet.Item
import Spreadsheet.Token.Lexer

/-! # Compiling formulas

A formula is compiled from left to right. Operands go to the program at once; an operator waits on
a stack until one that binds no tighter, a comma or the end of its parentheses follows. Compiling
never fails: a place that makes no sense becomes an instruction that fails, and compiling goes on.

A sign in front of an operand is told from an operator by what precedes it: `wanting` says that an
operand is to follow. -/

namespace Spreadsheet

/-- What waits for the operand behind it. -/
inductive Pending where
  /-- An operator whose right operand is not complete. -/
  | operator (o : Operator)
  /-- A negation whose operand is not complete. -/
  | negate
  | paren
  /-- An open call with the number of commas so far. -/
  | call (name : String) (commas : Nat)
  deriving DecidableEq

namespace Pending

/-- How strongly it binds; parentheses hold what they enclose together. -/
def precedence? : Pending → Option Nat
  | operator o => some o.precedence
  | negate => some Operator.negation
  | paren | call _ _ => none

/-- What it comes to when the formula ends: an operator applies, and a parenthesis is missing. -/
def instruction : Pending → Instruction
  | operator o => .operator o
  | negate => .negate
  | paren | call _ _ => .failure .error

end Pending

/-- A formula that is being compiled. -/
structure Compilation where
  program : Array Instruction := #[]
  /-- What waits, the latest first. -/
  pending : List Pending := []
  /-- Whether an operand is to follow. -/
  wanting : Bool := true
  /-- Whether a call has just been opened. -/
  opened : Bool := false

namespace Compilation

/-- One more instruction; no operand is to follow. -/
def emit (c : Compilation) (i : Instruction) : Compilation :=
  { c with program := c.program.push i, wanting := false }

/-- Lets the latest operators apply, as long as they bind strongly enough. -/
def settle (bound : Nat → Bool) (program : Array Instruction) :
    List Pending → Array Instruction × List Pending
  | [] => (program, [])
  | p :: rest =>
    if p.precedence?.any bound then settle bound (program.push p.instruction) rest
    else (program, p :: rest)

/-- Lets the operators apply that bind strongly enough. -/
def release (c : Compilation) (bound : Nat → Bool) : Compilation :=
  let (program, pending) := settle bound c.program c.pending
  { c with program, pending }

/-- Lets all operators apply up to the innermost open parenthesis. -/
def releaseAll (c : Compilation) : Compilation := c.release fun _ => true

/-- Puts an operator or parenthesis on the stack; an operand is to follow. -/
def await (c : Compilation) (p : Pending) : Compilation :=
  { c with pending := p :: c.pending, wanting := true }

/-- An operator between operands: those that bind tighter apply first, and so do equally strong
ones unless the operator groups from right to left. -/
def between (c : Compilation) (o : Operator) : Compilation :=
  (c.release fun n => o.precedence < n || (n == o.precedence && !o.groupsRight)).await (.operator o)

/-- A comma: it separates arguments if the innermost open parenthesis is that of a call. -/
def separate (c : Compilation) : Compilation :=
  let c := c.releaseAll
  match c.pending with
  | .call name commas :: rest =>
    { c with pending := .call name (commas + 1) :: rest, wanting := true }
  | _ => { c.emit (.failure .error) with wanting := true }

/-- A closing parenthesis; `opened` says that the call it closes has just been opened. -/
def close (c : Compilation) (opened : Bool) : Compilation :=
  let c := c.releaseAll
  match c.pending with
  | .paren :: rest => { c with pending := rest, wanting := false }
  | .call name commas :: rest =>
    { c with pending := rest }.emit (.call name (if opened then 0 else commas + 1))
  | _ => c.emit (.failure .error)

/-- One more item of the formula. -/
def step (c : Compilation) (item : Item) : Compilation :=
  let opened := c.opened
  let c := { c with opened := false }
  match item with
  | .operand o => c.emit (.push o)
  | .failure m => c.emit (.failure m)
  | .operator o =>
    if c.wanting ∧ o = .add then c
    else if c.wanting ∧ o = .subtract then { c with pending := .negate :: c.pending }
    else c.between o
  | .leftParen => c.await .paren
  | .call name => { c.await (.call name 0) with opened := true }
  | .comma => c.separate
  | .rightParen => c.close opened

/-- The program at the end of the formula. -/
def finish (c : Compilation) : Program :=
  c.program.toList ++ c.pending.map Pending.instruction

end Compilation

namespace Program

def ofItems (items : List Item) : Program := (items.foldl Compilation.step {}).finish

def ofTokens (limits : Limits) (ts : List Token) : Program := ofItems (Item.ofTokens limits ts)

/-- **The program of a formula on a sheet with the given limits.** -/
def ofSource (limits : Limits) (source : String) : Program :=
  ofTokens limits (Token.ofSource source)

end Program

end Spreadsheet
