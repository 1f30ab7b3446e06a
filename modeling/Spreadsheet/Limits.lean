import Spreadsheet.Range

/-! # The size of a sheet

A sheet has a number of rows and a number of columns; the cells within them are the ones that can
be written and named. -/

namespace Spreadsheet

/-- The number of rows and columns of a sheet. -/
structure Limits where
  rows : UInt32 := 10000
  columns : UInt16 := 5000
  deriving DecidableEq, Repr

namespace Limits

def contains (l : Limits) (a : Address) : Bool := a.row < l.rows && a.column < l.columns

/-- Refuses a cell outside the sheet; a row that is too large is reported before a column. -/
def check (l : Limits) (a : Address) : Except PositionError Unit :=
  if l.rows ≤ a.row then .error (.rowOutOfBounds a.row (if l.rows = 0 then 0 else l.rows - 1))
  else if l.columns ≤ a.column then
    .error (.columnOutOfBounds a.column (if l.columns = 0 then 0 else l.columns - 1))
  else .ok ()

/-- **The check passes exactly the cells of the sheet.** -/
theorem check_eq_ok_iff {l : Limits} {a : Address} : l.check a = .ok () ↔ l.contains a = true := by
  simp only [check, contains, Bool.and_eq_true, decide_eq_true_eq, UInt32.le_iff_toNat_le,
    UInt16.le_iff_toNat_le, UInt32.lt_iff_toNat_lt, UInt16.lt_iff_toNat_lt]
  split
  · simp only [reduceCtorEq, false_iff]; omega
  · split
    · simp only [reduceCtorEq, false_iff]; omega
    · simp only [true_iff]; omega

end Limits

end Spreadsheet
