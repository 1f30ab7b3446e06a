import Spreadsheet.Builtin
import Spreadsheet.Program

/-! # Evaluating programs

A program runs on a stack of values. What it reads from outside, the cells of the sheet and the
functions that change, comes from a `Source`, which may keep a state of its own: the reads happen
from left to right, the cells of a range row by row. A malformed program reads nothing. -/

namespace Spreadsheet

/-- Why a formula has no value. -/
inductive EvalError where
  /-- The formula is malformed. -/
  | marker (m : Marker)
  | emptyFormula
  /-- An operator or a call has too few operands in front of it. -/
  | missingOperand
  /-- Several operands have no operator between them. -/
  | leftover
  | unknownFunction (name : String)
  /-- A function has fewer arguments than it takes. -/
  | tooFew (name : String) (least given : Nat)
  /-- A function has more arguments than it takes. -/
  | tooMany (name : String) (most given : Nat)
  deriving DecidableEq, Repr

namespace EvalError

/-- The wording of an error about the number of arguments. -/
def argumentMessage (name bound : String) (expected given : Nat) : String :=
  "Wrong number of arguments for " ++ name ++ ": expected " ++ bound ++ " " ++
    Numeral.text expected ++ ", got " ++ Numeral.text given

def message : EvalError → String
  | marker m => "Cell error: " ++ m.text
  | emptyFormula => "Evaluation error: empty formula"
  | missingOperand => "Evaluation error: missing operand"
  | leftover => "Evaluation error: formula leaves more than one value"
  | unknownFunction name => "Unknown function: " ++ name
  | tooFew name least given => argumentMessage name "at least" least given
  | tooMany name most given => argumentMessage name "at most" most given

/-- The marker that a cell shows in place of a value. -/
def toMarker : EvalError → Marker
  | marker m => m
  | unknownFunction _ => .name
  | _ => .error

end EvalError

/-- Where a program reads from. -/
structure Source (m : Type → Type) where
  cell : Address → m Scalar
  volatile : Volatile → m Scalar

section

variable {m : Type → Type} [Monad m]

def Operand.evaluate (src : Source m) : Operand → m Value
  | number x => pure (.number x)
  | text s => pure (.text s)
  | ref a => return .scalar (← src.cell a)
  | range r => return .array (← r.cells.mapM src.cell)

/-- The function of a call with `given` arguments, if it exists and takes that many. -/
def Function.resolve (name : String) (given : Nat) : Except EvalError Function :=
  match Function.named? name with
  | none => .error (.unknownFunction name)
  | some f =>
    if given < f.arity.least then .error (.tooFew f.name f.arity.least given)
    else
      match f.arity.most with
      | some most => if most < given then .error (.tooMany f.name most given) else .ok f
      | none => .ok f

/-- What a function makes of its arguments. -/
def Function.apply (src : Source m) (args : List Value) : Function → m Value
  | fixed f => pure (f.apply args)
  | volatile v => return .scalar (← src.volatile v)

def Function.call (src : Source m) (name : String) (args : List Value) :
    ExceptT EvalError m Value := do
  let f ← ExceptT.mk (pure (Function.resolve name args.length))
  ExceptT.lift (f.apply src args)

/-- One instruction on a stack of values, the topmost first. -/
def Instruction.run (src : Source m) (stack : List Value) :
    Instruction → ExceptT EvalError m (List Value)
  | push o => return (← ExceptT.lift (o.evaluate src)) :: stack
  | negate =>
    match stack with
    | v :: rest => return .number (-v.toNumber) :: rest
    | [] => throw .missingOperand
  | operator o =>
    match stack with
    | b :: a :: rest => return o.apply a b :: rest
    | _ => throw .missingOperand
  | call name count => do
    if stack.length < count then throw .missingOperand
    else return (← Function.call src name (stack.take count).reverse) :: stack.drop count
  | failure m => throw (.marker m)

def Program.run (src : Source m) (stack : List Value) :
    Program → ExceptT EvalError m (List Value)
  | [] => return stack
  | i :: rest => do run src (← i.run src stack) rest

/-- **The value of a program.** -/
def Program.evaluate (src : Source m) (p : Program) : ExceptT EvalError m Value :=
  match p.firstFailure? with
  | some marker => throw (.marker marker)
  | none => do
    if p.isEmpty then throw .emptyFormula
    else
      match ← p.run src [] with
      | [v] => return v
      | _ => throw .leftover

/-- What a cell shows for the outcome of its formula. -/
def EvalError.shown : Except EvalError Value → String
  | .ok v => v.shown
  | .error e => e.toMarker.text

/-- **The text that a cell with the given program shows.** -/
def Program.shown (src : Source m) (p : Program) : m String :=
  return EvalError.shown (← (p.evaluate src).run)

end

end Spreadsheet
