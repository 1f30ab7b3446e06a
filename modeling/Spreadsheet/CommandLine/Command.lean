import Spreadsheet.Text.Numeral

/-! # Commands

The command line names a command, its operands and its options. Words are read from the left, and
the first one that has no place decides what is wrong; a request for help counts where it is met.
Options can stand before, between and behind the operands, until a word `--` makes operands of all
that follow. The value of an option is part of its word or the next word, which then must not look
like an option. -/

namespace Spreadsheet.CommandLine

/-- What can be asked for. -/
inductive Verb where
  | eval
  | cell
  | formula
  | info
  deriving DecidableEq, Repr

/-- An option with a value. -/
inductive Flag where
  | output
  | sheet
  | delimiter
  deriving DecidableEq, Repr

namespace Verb

def all : List Verb := [eval, cell, formula, info]

def name : Verb → String
  | eval => "eval"
  | cell => "cell"
  | formula => "formula"
  | info => "info"

def operands : Verb → List String
  | eval | info => ["INPUT"]
  | cell => ["INPUT", "ADDRESS"]
  | formula => ["EXPR"]

def flags : Verb → List Flag
  | eval => [.output, .delimiter]
  | formula => [.sheet, .delimiter]
  | cell | info => [.delimiter]

end Verb

namespace Flag

def name : Flag → String
  | output => "output"
  | sheet => "sheet"
  | delimiter => "delimiter"

def letter : Flag → Char
  | output => 'o'
  | sheet => 's'
  | delimiter => 'd'

/-- Whether an option can have the given value: a delimiter is one character, and no file has the
empty name. -/
def admits (f : Flag) (value : String) : Bool :=
  match f with
  | delimiter => value.toList.length == 1
  | output | sheet => value != ""

end Flag

/-- Whether an operand can have the given value: no file has the empty name. -/
def admitsOperand (operand value : String) : Bool := operand != "INPUT" || value != ""

/-- A page of help. -/
inductive Page where
  | program
  | verb (v : Verb)
  | help
  deriving DecidableEq, Repr

/-- What is wrong with a command line. -/
inductive Misuse where
  | noVerb
  | unknownVerb (word : String)
  /-- A word has no place. -/
  | unexpected (word : String)
  | noValue (option : String)
  /-- An option or operand cannot have the value. -/
  | badValue (value target : String)
  | repeated (f : Flag)
  | missing (operands : List String)
  deriving DecidableEq, Repr

def Misuse.message : Misuse → String
  | noVerb => "a subcommand is required but one was not provided"
  | unknownVerb word => "unrecognized subcommand '" ++ word ++ "'"
  | unexpected word => "unexpected argument '" ++ word ++ "' found"
  | noValue option => "a value is required for '" ++ option ++ "' but none was supplied"
  | badValue value target => "invalid value '" ++ value ++ "' for '" ++ target ++ "'"
  | repeated f => "the argument '--" ++ f.name ++ "' cannot be used multiple times"
  | missing operands =>
    "the following required arguments were not provided: " ++
      String.intercalate " " (operands.map fun o => "<" ++ o ++ ">")

/-- Why no command is carried out. -/
inductive Stop where
  | help (page : Page)
  | version
  | misuse (m : Misuse)
  deriving DecidableEq, Repr

/-- A command with its operands and options. -/
inductive Command where
  /-- Evaluate all cells of a sheet. -/
  | eval (input : String) (output : Option String) (delimiter : Char)
  /-- Show one cell of a sheet. -/
  | cell (input address : String) (delimiter : Char)
  /-- Evaluate a formula, on a sheet if there is one. -/
  | formula (expr : String) (sheet : Option String) (delimiter : Char)
  /-- Show counts over a sheet. -/
  | info (input : String) (delimiter : Char)
  deriving DecidableEq, Repr

/-- The words read so far. -/
structure Words where
  operands : List String := []
  /-- The options and their values. -/
  flags : List (Flag × String) := []

namespace Words

def operand (v : Verb) (w : Words) (value : String) : Except Stop Words :=
  match v.operands[w.operands.length]? with
  | none => .error (.misuse (.unexpected value))
  | some name =>
    if admitsOperand name value then .ok { w with operands := w.operands ++ [value] }
    else .error (.misuse (.badValue value name))

def flag (w : Words) (f : Flag) (value : String) : Except Stop Words :=
  if w.flags.any (·.1 = f) then .error (.misuse (.repeated f))
  else if f.admits value then .ok { w with flags := w.flags ++ [(f, value)] }
  else .error (.misuse (.badValue value f.name))

def value? (w : Words) (f : Flag) : Option String := (w.flags.find? (·.1 = f)).map (·.2)

/-- The delimiter; a comma if none is given. -/
def delimiter (w : Words) : Char := ((w.value? .delimiter).bind (·.toList.head?)).getD ','

/-- The command, once all words are read. -/
def command (v : Verb) (w : Words) : Except Stop Command :=
  match v, w.operands with
  | .eval, [input] => .ok (.eval input (w.value? .output) w.delimiter)
  | .cell, [input, address] => .ok (.cell input address w.delimiter)
  | .formula, [expr] => .ok (.formula expr (w.value? .sheet) w.delimiter)
  | .info, [input] => .ok (.info input w.delimiter)
  | v, given => .error (.misuse (.missing (v.operands.drop given.length)))

end Words

/-- How a word looks. -/
inductive Shape where
  /-- The end of the options. -/
  | separator
  /-- An option by its name, and the value in the same word. -/
  | long (name : String) (value : Option String)
  /-- An option by its letter, and what follows the letter. -/
  | short (letter : Char) (rest : List Char)
  /-- Anything else. -/
  | plain
  deriving DecidableEq, Repr

/-- The shape of a word; a single hyphen is a plain word. -/
def Shape.ofWord (word : String) : Shape :=
  match word.toList with
  | ['-', '-'] => separator
  | '-' :: '-' :: cs =>
    match cs.dropWhile (· ≠ '=') with
    | [] => long (String.ofList cs) none
    | _ :: value =>
      long (String.ofList (cs.takeWhile (· ≠ '='))) (some (String.ofList value))
  | '-' :: c :: rest => short c rest
  | _ => plain

/-- The value in the same word as the letter of an option; an equals sign may stand before it. -/
def attached? : List Char → Option String
  | [] => none
  | '=' :: value => some (String.ofList value)
  | value => some (String.ofList value)

/-- An option whose value is in its own word or in the next one; the words behind it. -/
def takeFlag (w : Words) (f : Flag) (word : String) (value : Option String)
    (rest : List String) : Except Stop (Words × Option String) :=
  match value with
  | some value => return (← w.flag f value, none)
  | none =>
    match rest with
    | next :: _ =>
      if Shape.ofWord next = .plain then return (← w.flag f next, some next)
      else .error (.misuse (.noValue word))
    | [] => .error (.misuse (.noValue word))

/-- Reads the words behind a verb. -/
def readWords (v : Verb) (w : Words) : List String → Except Stop Words
  | [] => .ok w
  | word :: rest =>
    match Shape.ofWord word with
    | .separator => rest.foldlM (Words.operand v) w
    | .plain => do readWords v (← w.operand v word) rest
    | .long name value =>
      if name = "help" ∧ value = none then .error (.help (.verb v))
      else
        match v.flags.find? (·.name = name) with
        | none => .error (.misuse (.unexpected word))
        | some f => do
          match ← takeFlag w f word value rest with
          | (w, none) => readWords v w rest
          | (w, some _) => readWords v w rest.tail
    | .short letter tail =>
      if letter = 'h' then .error (.help (.verb v))
      else
        match v.flags.find? (·.letter = letter) with
        | none => .error (.misuse (.unexpected word))
        | some f => do
          match ← takeFlag w f word (attached? tail) rest with
          | (w, none) => readWords v w rest
          | (w, some _) => readWords v w rest.tail
termination_by words => words.length
decreasing_by all_goals (simp; try omega)

/-- The page of help that is asked for by words. -/
def readPage : List String → Stop
  | [] => .help .program
  | word :: rest =>
    let page :=
      if word = "help" then some .help
      else (Verb.all.find? (·.name = word)).map Page.verb
    match page, rest with
    | none, _ => .misuse (.unknownVerb word)
    | some page, [] => .help page
    | some _, word :: _ => .misuse (.unknownVerb word)

/-- **The command of a command line**, or why there is none. -/
def read : List String → Except Stop Command
  | [] => .error (.misuse .noVerb)
  | word :: rest =>
    match Shape.ofWord word with
    | .plain =>
      if word = "help" then .error (readPage rest)
      else
        match Verb.all.find? (·.name = word) with
        | none => .error (.misuse (.unknownVerb word))
        | some v => do (← readWords v {} rest).command v
    | .long "help" none => .error (.help .program)
    | .long "version" none => .error .version
    | .short 'h' _ => .error (.help .program)
    | .short 'V' _ => .error .version
    | _ => .error (.misuse (.unexpected word))

end Spreadsheet.CommandLine
