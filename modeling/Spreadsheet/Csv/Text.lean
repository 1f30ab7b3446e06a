import Spreadsheet.Address
import Std.Data.TreeMap.Lemmas

/-! # Sheets as delimited text

A sheet is written as lines of fields with a delimiter between them, from the first row and column
to the last ones in use. Nothing is quoted. `Csv.grid` walks over the cells in order and over the
places of the grid at the same time, and leaves a place empty when the next cell lies elsewhere. -/

namespace Spreadsheet.Csv

/-- How lines end. -/
inductive Terminator where
  | lf
  | crlf
  deriving DecidableEq, Repr

def Terminator.text : Terminator → String
  | lf => "\n"
  | crlf => "\r\n"

/-- How a sheet is written. -/
structure Format where
  delimiter : Char := ','
  terminator : Terminator := .crlf
  deriving DecidableEq, Repr

abbrev Cells := List (Address × String)

/-- The next `n` fields of row `r` from column `c` on, behind those already found, and the cells
that are left. -/
def fields (r : Nat) : (n c : Nat) → Cells → Array String → Array String × Cells
  | 0, _, cells, found => (found, cells)
  | n + 1, c, cells, found =>
    match cells with
    | [] => fields r n (c + 1) [] (found.push "")
    | (a, text) :: rest =>
      if a.row.toNat = r ∧ a.column.toNat = c then fields r n (c + 1) rest (found.push text)
      else fields r n (c + 1) ((a, text) :: rest) (found.push "")

/-- The next `n` lines of `width` fields from row `r` on, behind those already found. -/
def lines (width : Nat) : (n r : Nat) → Cells → Array (List String) → Array (List String)
  | 0, _, _, found => found
  | n + 1, r, cells, found =>
    let (line, cells) := fields r width 0 cells #[]
    lines width n (r + 1) cells (found.push line.toList)

/-- The number of rows from the first one to the last one in use. -/
def height (cells : Cells) : Nat := cells.foldl (fun n p => max n (p.1.row.toNat + 1)) 0

/-- The number of columns from the first one to the last one in use. -/
def width (cells : Cells) : Nat := cells.foldl (fun n p => max n (p.1.column.toNat + 1)) 0

/-- The fields of a sheet, line by line, from its cells in order. -/
def grid (cells : Cells) : List (List String) :=
  (lines (width cells) (height cells) 0 cells #[]).toList

/-- The cells in order; of several texts for one cell the last one counts. -/
def inOrder (cells : Cells) : Cells :=
  (cells.foldl (fun map p => map.insert p.1 p.2) (∅ : Std.TreeMap Address String)).toList

def join (f : Format) (rows : List (List String)) : String :=
  String.intercalate f.terminator.text (rows.map (String.intercalate f.delimiter.toString))

/-- **The text of a sheet with the given cells.** -/
def text (f : Format) (cells : Cells) : String := join f (grid (inOrder cells))

end Spreadsheet.Csv
