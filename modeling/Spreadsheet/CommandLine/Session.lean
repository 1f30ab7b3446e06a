import Spreadsheet.CommandLine.Help
import Spreadsheet.Csv.Import
import Spreadsheet.Csv.Text
import Spreadsheet.Recalculation

/-! # Carrying out commands

A command reads files, calculates, and writes to a file or to the standard output. What it writes
and the exit code are an `Outcome`. Files are reached through a `Disk`, and a command that fails
says why, with all causes. -/

namespace Spreadsheet.CommandLine

/-- What a command leaves behind. -/
structure Outcome where
  code : UInt32 := 0
  output : String := ""
  errors : String := ""
  deriving DecidableEq, Repr

/-- How files are reached; what fails has a reason. -/
structure Disk (m : Type → Type) where
  /-- The bytes of a file. -/
  read : String → m (Except String (List UInt8))
  /-- Writes a text to a file. -/
  write : String → String → m (Except String Unit)

/-- Why a command fails: what could not be done, and the causes, the nearest first. -/
structure Failure where
  /-- What could not be done. -/
  context : String
  causes : List String
  deriving DecidableEq, Repr

/-- A text whose lines begin with `first` and, from the second one on, with `next`. -/
def indent (first next : String) (s : String) : String :=
  first ++ String.ofList (s.toList.flatMap fun c =>
    if c = '\n' then '\n' :: next.toList else [c])

/-- A cause with its number, right-aligned in five places. -/
def numbered (i : Nat) (cause : String) : String :=
  let number := Numeral.digits i
  indent (String.ofList (List.replicate (5 - number.length) ' ' ++ number ++ [':', ' '])) "       "
    cause

/-- The report of a failure. A single cause has no number. -/
def Failure.report (f : Failure) : String :=
  let causes := match f.causes with
    | [] => []
    | [cause] => [indent "    " "    " cause]
    | causes => causes.zipIdx.map fun (p : String × Nat) => numbered p.2 p.1
  "Error: " ++ f.context ++
    (if causes.isEmpty then "" else "\n\nCaused by:" ++ String.join (causes.map ("\n" ++ ·))) ++
    "\n"

def quoted (s : String) : String := "'" ++ s ++ "'"

section

variable {m : Type → Type} [Monad m]

/-- A step of a command: what it writes to the standard error goes on while it fails or not. -/
abbrev Step (m : Type → Type) := ExceptT Failure (StateT String m)

/-- Writes a line to the standard error. -/
def warn (line : String) : Step m Unit := modify (· ++ line ++ "\n")

/-- The sheet in a file; fields that have no place in it are warned of. -/
def load (disk : Disk m) (input : String) (delimiter : Char) : Step m Store := do
  let fail (causes : List String) : Step m Store :=
    throw ⟨"Failed to open " ++ quoted input, causes⟩
  match ← (disk.read input : m _) with
  | .error reason => fail [(Csv.ReadError.io reason).message, reason]
  | .ok bytes =>
    match Csv.Import.ofBytes delimiter {} bytes with
    | .error e => fail [e.message]
    | .ok i =>
      if i.dropped ≠ 0 then
        warn ("Warning: dropped " ++ Numeral.text i.dropped ++ " cells outside the " ++
          Numeral.text i.store.limits.rows.toNat ++ "x" ++
          Numeral.text i.store.limits.columns.toNat ++ " sheet")
      return i.store

def evalSheet (disk : Disk m) (volatile : Volatile → m Scalar) (input : String)
    (output : Option String) (delimiter : Char) : Step m String := do
  let store ← load disk input delimiter
  let r ← (store.recalculate volatile : m _)
  warn ("Calculated " ++ Numeral.text r.stats.formulas ++ " formulas (" ++
    Numeral.text r.stats.errors ++ " errors, " ++ Numeral.text r.stats.circular ++ " in cycles)")
  let text := Csv.text { delimiter } r.toList
  match output with
  | none => return text ++ "\n"
  | some path =>
    match ← (disk.write path text : m _) with
    | .error reason => throw ⟨"Failed to write " ++ quoted path, [reason]⟩
    | .ok () =>
      warn ("Wrote " ++ Numeral.text store.size ++ " cells to " ++ quoted path)
      return ""

def showCell (disk : Disk m) (volatile : Volatile → m Scalar) (input address : String)
    (delimiter : Char) : Step m String :=
  match Address.read address with
  | .error fault =>
    throw ⟨"Invalid cell address " ++ quoted address, [(PositionError.address fault).message]⟩
  | .ok a => do
    let store ← load disk input delimiter
    let r ← (store.recalculate volatile : m _)
    return r.text a ++ "\n"

def evalFormula (disk : Disk m) (volatile : Volatile → m Scalar) (expr : String)
    (sheet : Option String) (delimiter : Char) : Step m String := do
  let store ← match sheet with
    | some path => load disk path delimiter
    | none => pure (Store.empty {})
  return (← (store.evaluate volatile expr : m _)) ++ "\n"

def showInfo (disk : Disk m) (volatile : Volatile → m Scalar) (input : String)
    (delimiter : Char) : Step m String := do
  let store ← load disk input delimiter
  let r ← (store.recalculate volatile : m _)
  return unlines [
    "File: " ++ input,
    "Cells: " ++ Numeral.text store.size,
    "Used range: " ++ (match store.usedRange? with
      | some range => range.a1
      | none => "(empty)"),
    "Formulas: " ++ Numeral.text r.stats.formulas,
    "Volatile formulas: " ++ Numeral.text r.stats.volatile,
    "Errors: " ++ Numeral.text r.stats.errors,
    "Cells in cycles: " ++ Numeral.text r.stats.circular]

/-- Carries out a command and gives its standard output. -/
def Command.perform (disk : Disk m) (volatile : Volatile → m Scalar) : Command → Step m String
  | eval input output delimiter => evalSheet disk volatile input output delimiter
  | cell input address delimiter => showCell disk volatile input address delimiter
  | formula expr sheet delimiter => evalFormula disk volatile expr sheet delimiter
  | info input delimiter => showInfo disk volatile input delimiter

/-- **Carries out a command line.** -/
def run (disk : Disk m) (volatile : Volatile → m Scalar) (words : List String) : m Outcome :=
  match read words with
  | .error (.help page) => return { output := page.text }
  | .error .version => return { output := version }
  | .error (.misuse .noVerb) => return { code := 2, errors := Page.program.text }
  | .error (.misuse m) =>
    return {
      code := 2
      errors := "error: " ++ m.message ++ "\n\nFor more information, try '--help'.\n" }
  | .ok command => do
    let (outcome, errors) ← (command.perform disk volatile).run.run ""
    match outcome with
    | .ok output => return { output, errors }
    | .error f => return { code := 1, errors := errors ++ f.report }

end

end Spreadsheet.CommandLine
