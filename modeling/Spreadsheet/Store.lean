import Spreadsheet.Limits
import Std.Data.TreeMap.Lemmas

/-! # The cells of a sheet

A store holds what has been written into the cells of a sheet. It holds no empty text: a cell
without text is no cell of the store, and writing the empty text into a cell removes it. All cells
lie within the limits of the sheet.

`Store.get?_set` and `Store.get?_erase` say what writing and removing do to the cells. -/

namespace Spreadsheet

/-- Whether the text of a cell is a formula: its first character that is no blank is an equals
sign. -/
def isFormula (text : String) : Bool := (Text.trimStart text.toList).head? == some '='

/-- The texts in the cells of a sheet. -/
structure Store where
  limits : Limits
  /-- The cells that hold a text. -/
  cells : Std.TreeMap Address String
  text_ne : ∀ (a : Address) (s : String), cells[a]? = some s → s ≠ ""
  inside : ∀ (a : Address) (s : String), cells[a]? = some s → limits.contains a = true

namespace Store

def empty (limits : Limits) : Store where
  limits := limits
  cells := ∅
  text_ne := by simp
  inside := by simp

/-- The text of a cell, if it has one. -/
def get? (s : Store) (a : Address) : Option String := s.cells[a]?

/-- The text of a cell; the empty one if it has none. -/
def text (s : Store) (a : Address) : String := (s.get? a).getD ""

/-- The text of the cell with the given A1 text. -/
def textAt (s : Store) (address : String) : Except PositionError String :=
  match Address.read address with
  | .ok a => .ok (s.text a)
  | .error fault => .error (.address fault)

def erase (s : Store) (a : Address) : Store where
  limits := s.limits
  cells := s.cells.erase a
  text_ne b t h := by
    rw [Std.TreeMap.getElem?_erase] at h
    split at h
    · cases h
    · exact s.text_ne b t h
  inside b t h := by
    rw [Std.TreeMap.getElem?_erase] at h
    split at h
    · cases h
    · exact s.inside b t h

/-- Puts a text that is not empty into a cell of the sheet. -/
def insert (s : Store) (a : Address) (t : String) (ht : t ≠ "")
    (ha : s.limits.contains a = true) : Store where
  limits := s.limits
  cells := s.cells.insert a t
  text_ne b u h := by
    rw [Std.TreeMap.getElem?_insert] at h
    split at h
    · cases h; exact ht
    · exact s.text_ne b u h
  inside b u h := by
    rw [Std.TreeMap.getElem?_insert] at h
    split at h
    · next hc => rw [← Std.LawfulEqOrd.eq_of_compare hc]; exact ha
    · exact s.inside b u h

/-- Writes a text into a cell; the empty text removes the cell. -/
def set (s : Store) (a : Address) (t : String) : Except PositionError Store :=
  match h : s.limits.check a with
  | .error e => .error e
  | .ok () =>
    if ht : t = "" then .ok (s.erase a)
    else .ok (s.insert a t ht (Limits.check_eq_ok_iff.mp h))

/-- Writes a text into the cell with the given A1 text. -/
def setAt (s : Store) (address t : String) : Except PositionError Store :=
  match Address.read address with
  | .ok a => s.set a t
  | .error fault => .error (.address fault)

/-- The cells that hold a text, row by row. -/
def toList (s : Store) : List (Address × String) := s.cells.toList

/-- The addresses of the cells that hold a text, row by row. -/
def addresses (s : Store) : List Address := s.cells.keys

def size (s : Store) : Nat := s.cells.size

def isEmpty (s : Store) : Bool := s.cells.isEmpty

/-- The smallest range around a range and a cell. -/
def cover (r : Range) (a : Address) : Range :=
  .spanning
    ⟨if a.row < r.first.row then a.row else r.first.row,
      if a.column < r.first.column then a.column else r.first.column⟩
    ⟨if r.last.row < a.row then a.row else r.last.row,
      if r.last.column < a.column then a.column else r.last.column⟩

/-- The smallest range that has all cells that hold a text. -/
def usedRange? (s : Store) : Option Range :=
  match s.addresses with
  | [] => none
  | a :: rest => some (rest.foldl cover (.single a))

theorem mem_toList {s : Store} {a : Address} {t : String} :
    (a, t) ∈ s.toList ↔ s.get? a = some t :=
  Std.TreeMap.mem_toList_iff_getElem?_eq_some

theorem mem_addresses {s : Store} {a : Address} : a ∈ s.addresses ↔ (s.get? a).isSome := by
  rw [addresses, Std.TreeMap.mem_keys, Std.TreeMap.mem_iff_isSome_getElem?, get?]

theorem map_fst_toList (s : Store) : s.toList.map Prod.fst = s.addresses :=
  Std.TreeMap.map_fst_toList_eq_keys

@[simp] theorem get?_empty (l : Limits) (a : Address) : (empty l).get? a = none := by
  simp [get?, empty]

/-- Removing a cell removes that cell only. -/
theorem get?_erase (s : Store) (a b : Address) :
    (s.erase a).get? b = if a = b then none else s.get? b := by
  simp [get?, erase, Std.TreeMap.getElem?_erase]

theorem get?_insert (s : Store) (a b : Address) (t : String) (ht : t ≠ "")
    (ha : s.limits.contains a = true) :
    (s.insert a t ht ha).get? b = if a = b then some t else s.get? b := by
  simp [get?, insert, Std.TreeMap.getElem?_insert]

/-- Writing fails exactly outside the sheet. -/
theorem set_of_not_contains {s : Store} {a : Address} {t : String}
    (h : s.limits.contains a = false) : ∃ e, s.set a t = .error e := by
  unfold set
  split
  · next e _ => exact ⟨e, rfl⟩
  · next hc => rw [Limits.check_eq_ok_iff.mp hc] at h; cases h

/-- Writing succeeds within the sheet. -/
theorem exists_set {s : Store} {a : Address} (h : s.limits.contains a = true) (t : String) :
    ∃ s', s.set a t = .ok s' := by
  unfold set
  split
  · next e he => rw [Limits.check_eq_ok_iff.mpr h] at he; cases he
  · split
    · exact ⟨_, rfl⟩
    · exact ⟨_, rfl⟩

/-- **Writing changes the written cell only**, and the empty text removes it. -/
theorem get?_set {s s' : Store} {a : Address} {t : String} (h : s.set a t = .ok s') (b : Address) :
    s'.get? b = if a = b then (if t = "" then none else some t) else s.get? b := by
  unfold set at h
  split at h
  · cases h
  · split at h
    · next ht => cases h; simp [get?_erase, ht]
    · next ht => cases h; simp [get?_insert, ht]

theorem limits_set {s s' : Store} {a : Address} {t : String} (h : s.set a t = .ok s') :
    s'.limits = s.limits := by
  unfold set at h
  split at h
  · cases h
  · split at h <;> cases h <;> rfl

end Store

end Spreadsheet
