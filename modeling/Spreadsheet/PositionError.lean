import Spreadsheet.Text.Numeral

/-! # What can be wrong with a position

The reasons why a text names no cell or range, and why a sheet refuses a position, each with its
message. -/

namespace Spreadsheet

/-- Why a text is not the address of a cell. -/
inductive AddressFault where
  /-- The text is not letters followed by digits. -/
  | notA1 (text : String)
  | emptyLabel
  | badLetter (letter : Char)
  | columnTooLarge (label : String)
  /-- The row is zero or beyond the last row. -/
  | badRow (text : String)
  deriving DecidableEq, Repr

def AddressFault.message : AddressFault → String
  | notA1 text => "'" ++ text ++ "' is not an A1 reference"
  | emptyLabel => "empty column letters"
  | badLetter letter => "invalid column letter '" ++ letter.toString ++ "'"
  | columnTooLarge label => "column '" ++ label ++ "' too large"
  | badRow text => "invalid row number in '" ++ text ++ "'"

/-- The wording of an address fault, with what it is about. -/
def AddressFault.report (fault : AddressFault) : String :=
  "Invalid cell address: " ++ fault.message

/-- Why a position cannot be used. -/
inductive PositionError where
  /-- A text names no cell. -/
  | address (fault : AddressFault)
  /-- One of the two corners that a text names is no cell. -/
  | range (text : String) (fault : AddressFault)
  /-- The row lies beyond the last row of the sheet. -/
  | rowOutOfBounds (row last : UInt32)
  /-- The column lies beyond the last column of the sheet. -/
  | columnOutOfBounds (column last : UInt16)
  deriving DecidableEq, Repr

def PositionError.message : PositionError → String
  | address fault => fault.report
  | range text fault => "Invalid cell range: " ++ text ++ ": " ++ fault.report
  | rowOutOfBounds row last =>
    "Row index " ++ Numeral.text row.toNat ++ " out of bounds (max: " ++
      Numeral.text last.toNat ++ ")"
  | columnOutOfBounds column last =>
    "Column index " ++ Numeral.text column.toNat ++ " out of bounds (max: " ++
      Numeral.text last.toNat ++ ")"

end Spreadsheet
