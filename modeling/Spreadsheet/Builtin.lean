import Spreadsheet.Criterion
import Spreadsheet.Number.Arithmetic
import Spreadsheet.Text.Capital

/-! # Functions

The functions that formulas can call: their names, how many arguments they take, and what they
compute. None of them fails: a function that finds nothing to work on has a default, and an argument
that is left out counts as its default.

Aggregates work on the numbers among their arguments: numbers and truth values count, texts and
empty cells do not. -/

namespace Spreadsheet

/-- A function whose result depends on its arguments alone. -/
inductive Builtin where
  | sum | product | average | min | max | count | counta | median | stdev | var
  | sqrt | abs | power | exp | ln | log10 | sin | cos | tan | asin | acos | atan | pi
  | round | floor | ceiling | log
  | «if» | and | or | not
  | concat | text
  | countif | sumif
  deriving DecidableEq, Repr

/-- A function whose result changes from one evaluation to the next. -/
inductive Volatile where
  /-- A random number from zero to one, one excluded. -/
  | rand
  /-- The local date and time, as text. -/
  | now
  /-- The local date, as text. -/
  | today
  deriving DecidableEq, Repr

/-- How many arguments a function takes. -/
structure Arity where
  /-- The least number of arguments. -/
  least : Nat
  /-- The greatest number of arguments, if there is one. -/
  most : Option Nat
  deriving DecidableEq, Repr

namespace Builtin

def all : List Builtin :=
  [sum, product, average, min, max, count, counta, median, stdev, var, sqrt, abs, power, exp, ln,
    log10, sin, cos, tan, asin, acos, atan, pi, round, floor, ceiling, log, «if», and, or, not,
    concat, text, countif, sumif]

def name : Builtin → String
  | sum => "SUM"
  | product => "PRODUCT"
  | average => "AVERAGE"
  | min => "MIN"
  | max => "MAX"
  | count => "COUNT"
  | counta => "COUNTA"
  | median => "MEDIAN"
  | stdev => "STDEV"
  | var => "VAR"
  | sqrt => "SQRT"
  | abs => "ABS"
  | power => "POWER"
  | exp => "EXP"
  | ln => "LN"
  | log10 => "LOG10"
  | sin => "SIN"
  | cos => "COS"
  | tan => "TAN"
  | asin => "ASIN"
  | acos => "ACOS"
  | atan => "ATAN"
  | pi => "PI"
  | round => "ROUND"
  | floor => "FLOOR"
  | ceiling => "CEILING"
  | log => "LOG"
  | «if» => "IF"
  | and => "AND"
  | or => "OR"
  | not => "NOT"
  | concat => "CONCAT"
  | text => "TEXT"
  | countif => "COUNTIF"
  | sumif => "SUMIF"

/-- How many arguments a function takes. -/
def arity : Builtin → Arity
  | sum | product | average | min | max | count | counta | median | stdev | var | and | or
  | concat => ⟨1, none⟩
  | pi => ⟨0, some 0⟩
  | sqrt | abs | exp | ln | log10 | sin | cos | tan | asin | acos | atan | not => ⟨1, some 1⟩
  | power | text | countif => ⟨2, some 2⟩
  | round | floor | ceiling | log => ⟨1, some 2⟩
  | «if» | sumif => ⟨2, some 3⟩

/-- All scalars of the arguments. -/
def scalars (args : List Value) : List Scalar := args.flatMap Value.scalars

/-- The numbers among the arguments. -/
def numbers (args : List Value) : List Float := (scalars args).filterMap Scalar.number?

/-- The number of the argument at a place, or the default if it is left out. -/
def numberAt (args : List Value) (i : Nat) (default : Float) : Float :=
  match args[i]? with
  | some v => v.toNumber
  | none => default

/-- A function of the first argument. -/
def unary (f : Float → Float) (args : List Value) : Value := .number (f (numberAt args 0 0))

/-- The ratio of a circle's circumference to its diameter. -/
def circle : Float := 3.141592653589793

/-- The logarithm of a number to a base. -/
def logarithm (x base : Float) : Float := if base == 10 then x.log10 else x.log / base.log

/-- The number of cells that meet a criterion. -/
def countMatching (args : List Value) : Value :=
  match args with
  | cells :: criterion :: _ =>
    let c := Criterion.ofScalar criterion.first
    .number (Float.ofNat (cells.scalars.filter c.holds).length)
  | _ => .number 0

/-- The sum of the numbers beside the cells that meet a criterion, or of those cells themselves if
nothing stands beside them. -/
def sumMatching (args : List Value) : Value :=
  match args with
  | cells :: criterion :: rest =>
    let c := Criterion.ofScalar criterion.first
    let beside := rest.headD cells
    let pairs := (cells.scalars.zip beside.scalars).filter fun p => c.holds p.1
    .number (Number.sum (pairs.filterMap fun p => p.2.number?))
  | _ => .number 0

/-- **What a function computes from its arguments.** -/
def apply (f : Builtin) (args : List Value) : Value :=
  match f with
  | sum => .number (Number.sum (numbers args))
  | product =>
    .number (if (numbers args).isEmpty then 0 else Number.product (numbers args))
  | average => .number ((Number.mean? (numbers args)).getD 0)
  | min => .number ((Number.least? (numbers args)).getD 0)
  | max => .number ((Number.greatest? (numbers args)).getD 0)
  | count => .number (Float.ofNat (numbers args).length)
  | counta => .number (Float.ofNat ((scalars args).filter fun s => !s.isEmpty).length)
  | median => .number ((Number.median? (numbers args)).getD 0)
  | stdev => .number (((Number.variance? (numbers args)).map Float.sqrt).getD 0)
  | var => .number ((Number.variance? (numbers args)).getD 0)
  | sqrt => unary Float.sqrt args
  | abs => unary Float.abs args
  | power => .number ((numberAt args 0 0).pow (numberAt args 1 1))
  | exp => unary Float.exp args
  | ln => unary Float.log args
  | log10 => unary Float.log10 args
  | sin => unary Float.sin args
  | cos => unary Float.cos args
  | tan => unary Float.tan args
  | asin => unary Float.asin args
  | acos => unary Float.acos args
  | atan => unary Float.atan args
  | pi => .number circle
  | round => .number (Number.roundTo (numberAt args 0 0) (Number.toInt32 (numberAt args 1 0)))
  | floor => .number (Number.toMultiple Float.floor (numberAt args 0 0) (numberAt args 1 1))
  | ceiling => .number (Number.toMultiple Float.ceil (numberAt args 0 0) (numberAt args 1 1))
  | log => .number (logarithm (numberAt args 0 0) (numberAt args 1 10))
  | «if» =>
    let chosen := if args.head?.any Value.isTrue then args[1]? else args[2]?
    chosen.getD (.boolean false)
  | and => .boolean ((scalars args).all Scalar.isTrue)
  | or => .boolean ((scalars args).any Scalar.isTrue)
  | not => .boolean !(args.head?.any Value.isTrue)
  | concat => .text (String.join ((scalars args).map Scalar.shown))
  | text =>
    .text (match args.head? with
      | some v => v.first.shown
      | none => "")
  | countif => countMatching args
  | sumif => sumMatching args

end Builtin

namespace Volatile

def all : List Volatile := [rand, now, today]

def name : Volatile → String
  | rand => "RAND"
  | now => "NOW"
  | today => "TODAY"

end Volatile

/-- A function that formulas can call. -/
inductive Function where
  | fixed (f : Builtin)
  | volatile (v : Volatile)
  deriving DecidableEq, Repr

namespace Function

def all : List Function := Builtin.all.map fixed ++ Volatile.all.map volatile

def name : Function → String
  | fixed f => f.name
  | volatile v => v.name

/-- How many arguments a function takes; one that changes takes none. -/
def arity : Function → Arity
  | fixed f => f.arity
  | volatile _ => ⟨0, some 0⟩

/-- Whether the result changes from one evaluation to the next. -/
def isVolatile : Function → Bool
  | fixed _ => false
  | volatile _ => true

/-- The function with the given name, in any case. -/
def named? (name : String) : Option Function :=
  let capital := String.ofList (Text.capitalize name.toList)
  all.find? (·.name = capital)

end Function

end Spreadsheet
