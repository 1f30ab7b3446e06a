import Spreadsheet.Store

/-! # Edits

The calls that change the cells of a sheet, with what each of them answers. A refused call leaves
the sheet as it is. -/

namespace Spreadsheet.Store

/-- Removes a cell: the text that it had, and the sheet without it. -/
def remove (s : Store) (a : Address) : Option String × Store := (s.get? a, s.erase a)

/-- A call that changes a sheet. -/
inductive Edit where
  /-- Writes a text into a cell. -/
  | write (a : Address) (t : String)
  /-- Writes a text into the cell with the given A1 text. -/
  | writeAt (address t : String)
  | remove (a : Address)
  deriving DecidableEq, Repr

/-- What a call answers. -/
inductive Reply where
  | done
  | refused (e : PositionError)
  /-- The text that the removed cell had. -/
  | removed (t : Option String)
  deriving DecidableEq, Repr

/-- The answer to a write, and the sheet behind it. -/
def answer (s : Store) : Except PositionError Store → Reply × Store
  | .ok s' => (.done, s')
  | .error e => (.refused e, s)

/-- **Carries out a call.** -/
def apply (s : Store) : Edit → Reply × Store
  | .write a t => s.answer (s.set a t)
  | .writeAt address t => s.answer (s.setAt address t)
  | .remove a => (.removed (s.remove a).1, (s.remove a).2)

end Spreadsheet.Store
