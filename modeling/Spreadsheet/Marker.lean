/-! # Error markers

A cell that cannot be evaluated shows a marker in place of a value. -/

namespace Spreadsheet

/-- What a cell shows in place of a value. -/
inductive Marker where
  /-- The cell depends on itself. -/
  | cycle
  /-- A name that means nothing. -/
  | name
  /-- A reference to no cell of the sheet. -/
  | ref
  | error
  deriving DecidableEq, Repr

namespace Marker

def text : Marker → String
  | cycle => "#CYCLE!"
  | name => "#NAME?"
  | ref => "#REF!"
  | error => "#ERROR"

def ofText? (s : String) : Option Marker := [cycle, name, ref, error].find? (·.text = s)

theorem ofText?_text (m : Marker) : ofText? m.text = some m := by cases m <;> decide

theorem text_of_ofText? {s : String} {m : Marker} (h : ofText? s = some m) : m.text = s := by
  simpa using List.find?_some h

end Marker

end Spreadsheet
