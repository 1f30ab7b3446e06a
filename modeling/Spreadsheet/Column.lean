import Spreadsheet.PositionError

/-! # Column labels

Columns are counted from zero and written with letters in bijective base 26: `A` is the first
column, `Z` the twenty-sixth, `AA` the next one. The letters `A` to `Z` are digits worth 1 to 26 and
there is no digit for zero, so every positive number has exactly one label.

`value` is the number that a label stands for, without any bound. `read` computes it in 32 bits,
refuses a label as soon as they are exceeded, and fits the result into the 65536 columns there
are. -/

namespace Spreadsheet.Column

/-- The letters of the English alphabet, in either case. -/
def isLetter (c : Char) : Bool := ('A' ≤ c && c ≤ 'Z') || ('a' ≤ c && c ≤ 'z')

/-- The letter in upper case; any other character stays. -/
def capital (c : Char) : Char := if 'a' ≤ c && c ≤ 'z' then Char.ofNat (c.toNat - 32) else c

/-- What a letter is worth: 1 for `A` to 26 for `Z`. -/
def letterValue (c : Char) : Nat := (capital c).toNat - 'A'.toNat + 1

/-- The letter worth one more than `n`. -/
def letter (n : Nat) : Char := Char.ofNat ('A'.toNat + n)

/-- **The number that a label stands for**, counted from one. -/
def value (label : List Char) : Nat := label.foldl (fun n c => 26 * n + letterValue c) 0

/-- The label of the number `n`, counted from one, before the letters `acc`. -/
def lettersOnto (n : Nat) (acc : List Char) : List Char :=
  if n = 0 then acc else lettersOnto ((n - 1) / 26) (letter ((n - 1) % 26) :: acc)
termination_by n
decreasing_by omega

/-- The label of a column. -/
def letters (column : UInt16) : List Char := lettersOnto (column.toNat + 1) []

/-- One more letter behind a number, while 32 bits hold the result. -/
def push (n : UInt32) (c : Char) : Option UInt32 :=
  let m := 26 * n.toNat + letterValue c
  if m < UInt32.size then some (UInt32.ofNat m) else none

/-- Reads the letters `rest` of a label behind the number `n`; the first letter that does not fit
decides what is wrong with the label. -/
def scan (label : List Char) (n : UInt32) : (rest : List Char) → Except AddressFault UInt32
  | [] => .ok n
  | c :: rest =>
    if isLetter c then
      (push n c).elim (.error (.columnTooLarge (String.ofList label))) fun m => scan label m rest
    else .error (.badLetter c)

/-- The column of a label, or what is wrong with the label. -/
def read (label : List Char) : Except AddressFault UInt16 :=
  if label.isEmpty then .error .emptyLabel
  else
    match scan label 0 label with
    | .error fault => .error fault
    | .ok n =>
      if n.toNat ≤ UInt16.size then .ok (UInt16.ofNat (n.toNat - 1))
      else .error (.columnTooLarge (String.ofList label))

theorem lettersOnto_zero (acc : List Char) : lettersOnto 0 acc = acc := by
  rw [lettersOnto]; simp

theorem lettersOnto_pos {n : Nat} (h : n ≠ 0) (acc : List Char) :
    lettersOnto n acc = lettersOnto ((n - 1) / 26) (letter ((n - 1) % 26) :: acc) := by
  rw [lettersOnto]; simp [h]

theorem value_append_singleton (label : List Char) (c : Char) :
    value (label ++ [c]) = 26 * value label + letterValue c := by
  simp [value]

end Spreadsheet.Column
