import Spreadsheet.Column
import Std.Data.TreeMap.Basic

/-! # Cell addresses

A cell lies in a row and a column, both counted from zero. Its A1 text is the label of the column
followed by the number of the row, counted from one. Addresses are ordered row by row:
`Address.index` numbers them in that order (`Address.index_inj`, `Address.index_lt_iff`). -/

namespace Spreadsheet

/-- The number of a row as it is written, counted from one: an optional `+` and digits, within 32
bits. The row is counted from zero, and the text `0` names none. -/
def Row.read? (text : List Char) : Option UInt32 :=
  let digits := match text with
    | '+' :: rest => rest
    | _ => text
  let n := Numeral.value digits
  if digits ≠ [] ∧ digits.all Numeral.isDigit ∧ 1 ≤ n ∧ n < UInt32.size then
    some (UInt32.ofNat (n - 1))
  else none

/-- The place of a cell, with row and column counted from zero. -/
structure Address where
  /-- The row, from zero. -/
  row : UInt32
  /-- The column, from zero. -/
  column : UInt16
  deriving DecidableEq, Repr, Inhabited

namespace Address

/-- The place of an address in the order that goes row by row. -/
def index (a : Address) : Nat := UInt16.size * a.row.toNat + a.column.toNat

theorem index_inj {a b : Address} (h : a.index = b.index) : a = b := by
  obtain ⟨r, c⟩ := a
  obtain ⟨s, d⟩ := b
  have hc := c.toNat_lt
  have hd := d.toNat_lt
  simp only [index, UInt16.size] at h
  have hr : r.toNat = s.toNat := by omega
  have he : c.toNat = d.toNat := by omega
  rw [UInt32.toNat_inj.mp hr, UInt16.toNat_inj.mp he]

theorem toNat_inj {a b : Address} :
    a.row.toNat = b.row.toNat ∧ a.column.toNat = b.column.toNat ↔ a = b := by
  constructor
  · rintro ⟨hr, hc⟩
    exact index_inj (by rw [index, index, hr, hc])
  · rintro rfl
    exact ⟨rfl, rfl⟩

/-- A cell in a row above, or to the left in the same row. -/
def Before (a b : Address) : Prop := a.row < b.row ∨ a.row = b.row ∧ a.column < b.column

theorem index_lt_iff {a b : Address} : a.index < b.index ↔ a.Before b := by
  have ha := a.column.toNat_lt
  have hb := b.column.toNat_lt
  simp only [Before, index, UInt16.size, UInt32.lt_iff_toNat_lt, UInt16.lt_iff_toNat_lt,
    ← UInt32.toNat_inj]
  omega

/-- How two addresses compare row by row. -/
def order (a b : Address) : Ordering := compareOn index a b

theorem order_eq_eq {a b : Address} (h : a.order b = .eq) : a = b :=
  index_inj (Nat.compare_eq_eq.mp h)

instance : Ord Address := ⟨order⟩

instance : Std.TransOrd Address := inferInstanceAs (Std.TransCmp (compareOn index))

instance : Std.LawfulEqOrd Address := ⟨order_eq_eq⟩

/-- The A1 text of an address: the label of the column and the number of the row. -/
def a1 (a : Address) : String :=
  String.ofList (Column.letters a.column ++ Numeral.digits (a.row.toNat + 1))

/-- The address with the given A1 text: letters, then digits, and nothing else. A column that
cannot be is reported before a row that cannot be. -/
def read (text : String) : Except AddressFault Address :=
  let label := text.toList.takeWhile Column.isLetter
  let digits := text.toList.dropWhile Column.isLetter
  if label = [] ∨ digits = [] ∨ ¬digits.all Numeral.isDigit then .error (.notA1 text)
  else
    match Column.read label with
    | .error fault => .error fault
    | .ok column =>
      match Row.read? digits with
      | none => .error (.badRow text)
      | some row => .ok ⟨row, column⟩

end Address

end Spreadsheet
