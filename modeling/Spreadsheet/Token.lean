import Spreadsheet.Operator

/-! # Tokens

The words of a formula. An address such as `B12` is two tokens, its column and its row: whether they
name a cell or are part of the name of a function such as `LOG10` depends on what follows.

`Token.spelling` writes a token as formulas do. -/

namespace Spreadsheet

/-- A word of a formula. -/
inductive Token where
  | number (x : Float)
  /-- A text, without its quotes. -/
  | text (s : String)
  /-- Letters that no digit follows. -/
  | name (letters : String)
  /-- Letters that digits follow. -/
  | column (letters : String)
  /-- The digits behind letters. -/
  | row (digits : String)
  | operator (o : Operator)
  | leftParen
  | rightParen
  | comma
  | colon
  /-- A character that formulas do not use. -/
  | unknown (c : Char)
  deriving DecidableEq

namespace Token

/-- A text as it stands between quotes: each quote in it is written twice. -/
def doubleQuotes : List Char → List Char
  | [] => []
  | c :: rest => if c = '"' then '"' :: '"' :: doubleQuotes rest else c :: doubleQuotes rest

def quote (cs : List Char) : List Char := '"' :: (doubleQuotes cs ++ ['"'])

/-- **A token as formulas write it.** -/
def spelling : Token → List Char
  | number x => (Number.shown x).toList
  | text s => quote s.toList
  | name letters => letters.toList
  | column letters => letters.toList
  | row digits => digits.toList
  | operator o => o.symbol.toList
  | leftParen => ['(']
  | rightParen => [')']
  | comma => [',']
  | colon => [':']
  | unknown c => [c]

end Token

end Spreadsheet
