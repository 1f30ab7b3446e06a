import Spreadsheet.Address
import Spreadsheet.Text.Blank

/-! # Ranges of cells

A range is a rectangle of cells, named by its top left and bottom right corner. It is read from the
A1 text of two corners in any order, and its cells are listed row by row. Sizes are counted in the
words that hold them, so a range as wide as all 65536 columns counts no column. -/

namespace Spreadsheet

/-- A rectangle of cells, its corners included. -/
structure Range where
  first : Address
  last : Address
  row_le : first.row ≤ last.row
  column_le : first.column ≤ last.column
  deriving DecidableEq

namespace Range

/-- The rectangle with two given opposite corners. -/
def spanning (a b : Address) : Range where
  first := ⟨if a.row ≤ b.row then a.row else b.row,
    if a.column ≤ b.column then a.column else b.column⟩
  last := ⟨if a.row ≤ b.row then b.row else a.row,
    if a.column ≤ b.column then b.column else a.column⟩
  row_le := by
    simp only [UInt32.le_iff_toNat_le]
    split <;> omega
  column_le := by
    simp only [UInt16.le_iff_toNat_le]
    split <;> omega

def single (a : Address) : Range where
  first := a
  last := a
  row_le := UInt32.le_refl _
  column_le := UInt16.le_refl _

def contains (r : Range) (a : Address) : Bool :=
  r.first.row ≤ a.row && a.row ≤ r.last.row && r.first.column ≤ a.column &&
    a.column ≤ r.last.column

def rowCount (r : Range) : UInt32 := r.last.row - r.first.row + 1

def columnCount (r : Range) : UInt16 := r.last.column - r.first.column + 1

def count (r : Range) : UInt64 := r.rowCount.toUInt64 * r.columnCount.toUInt64

/-- The cell with the number `i`, counted from zero row by row. -/
def cell (r : Range) (i : Nat) : Address :=
  ⟨r.first.row + UInt32.ofNat (i / r.columnCount.toNat),
    r.first.column + UInt16.ofNat (i % r.columnCount.toNat)⟩

/-- The cells of the range, row by row. -/
def cells (r : Range) : List Address := (List.range r.count.toNat).map r.cell

/-- The A1 text of a range: its two corners, or its only cell. -/
def a1 (r : Range) : String :=
  if r.first = r.last then r.first.a1 else r.first.a1 ++ ":" ++ r.last.a1

/-- The range with the given text: the A1 texts of two corners with a colon between them, or of one
cell. Blanks may stand around each of them. -/
def read (text : String) : Except PositionError Range :=
  let cs := Text.trim text.toList
  let corner (part : List Char) : Except PositionError Address :=
    match Address.read (String.ofList (Text.trim part)) with
    | .ok a => .ok a
    | .error fault => .error (.range (String.ofList cs) fault)
  match cs.dropWhile (· ≠ ':') with
  | [] =>
    match Address.read (String.ofList cs) with
    | .ok a => .ok (single a)
    | .error fault => .error (.address fault)
  | _ :: right => do
    let a ← corner (cs.takeWhile (· ≠ ':'))
    let b ← corner right
    return spanning a b

/-- A walk over the cells of a range. -/
structure Cursor where
  range : Range
  /-- How many cells have been passed. -/
  passed : Nat

/-- The walk before the first cell. -/
def start (r : Range) : Cursor := ⟨r, 0⟩

/-- How many cells are still to come. -/
def Cursor.left (c : Cursor) : Nat := c.range.count.toNat - c.passed

/-- The next cell and the walk behind it; none behind the last cell. -/
def Cursor.next? (c : Cursor) : Option (Address × Cursor) :=
  if c.passed < c.range.count.toNat then
    some (c.range.cell c.passed, { c with passed := c.passed + 1 })
  else none

/-- Up to `n` cells from the walk, and the walk behind them. -/
def Cursor.take : (n : Nat) → (c : Cursor) → List Address × Cursor
  | 0, c => ([], c)
  | n + 1, c =>
    match c.next? with
    | none => ([], c)
    | some (a, c) =>
      let (rest, c) := take n c
      (a :: rest, c)

end Range

end Spreadsheet
