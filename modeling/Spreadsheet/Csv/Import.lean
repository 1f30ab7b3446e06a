import Spreadsheet.Store
import Spreadsheet.Text.Utf8

/-! # Reading delimited text

The lines of a text are the rows of a sheet, and their fields, cut at every delimiter, the cells. A
field of blanks is no cell. A field that has no place in the sheet is dropped and counted. -/

namespace Spreadsheet

/-- The address with the given row and column, if there are that many. -/
def Address.at? (row column : Nat) : Option Address :=
  if row < UInt32.size ∧ column < UInt16.size then some ⟨UInt32.ofNat row, UInt16.ofNat column⟩
  else none

namespace Csv

/-- The pieces of a text between the places where a character stands, behind those already found. -/
def piecesOnto (c : Char) (cs : List Char) (found : Array (List Char)) : Array (List Char) :=
  match _ : cs.dropWhile (· ≠ c) with
  | [] => found.push cs
  | _ :: rest => piecesOnto c rest (found.push (cs.takeWhile (· ≠ c)))
termination_by cs.length
decreasing_by
  have h := (List.dropWhile_suffix (l := cs) fun d => decide (d ≠ c)).length_le
  rw [‹cs.dropWhile _ = _›, List.length_cons] at h
  exact h

/-- The pieces of a text between the places where a character stands. -/
def pieces (c : Char) (cs : List Char) : List (List Char) := (piecesOnto c cs #[]).toList

/-- A line without the carriage return that it may end with. -/
def withoutReturn (line : List Char) : List Char :=
  if line.getLast? = some '\r' then line.dropLast else line

/-- The lines of a text; empty lines at its end do not count. -/
def linesOf (cs : List Char) : List (List Char) :=
  (((pieces '\n' cs).map withoutReturn).reverse.dropWhile List.isEmpty).reverse

/-- What has been read from a text. -/
structure Import where
  store : Store
  /-- The number of fields that have no place in the sheet. -/
  dropped : Nat

def Import.place (i : Import) (row column : Nat) (field : List Char) : Import :=
  if field.all Text.isBlank then i
  else
    match Address.at? row column with
    | none => { i with dropped := i.dropped + 1 }
    | some a =>
      match i.store.set a (String.ofList field) with
      | .ok store => { i with store }
      | .error _ => { i with dropped := i.dropped + 1 }

def Import.line (delimiter : Char) (i : Import) (row : Nat) (line : List Char) : Import :=
  (pieces delimiter line).zipIdx.foldl (fun i p => i.place row p.2 p.1) i

/-- **Reads a sheet with the given limits from a text.** -/
def Import.ofText (delimiter : Char) (limits : Limits) (cs : List Char) : Import :=
  (linesOf cs).zipIdx.foldl (fun i p => i.line delimiter p.2 p.1) ⟨.empty limits, 0⟩

/-- Places a field in a sheet that may refuse it: a field outside the limits is dropped, any other
one is written, and the reading ends if the sheet refuses it. -/
def Import.tryPlace (i : Import) (row column : Nat) (field : List Char) :
    Except PositionError Import :=
  if field.all Text.isBlank then .ok i
  else
    match (Address.at? row column).filter i.store.limits.contains with
    | none => .ok { i with dropped := i.dropped + 1 }
    | some a => return { i with store := ← i.store.set a (String.ofList field) }

def Import.tryLine (delimiter : Char) (i : Import) (row : Nat) (line : List Char) :
    Except PositionError Import :=
  (pieces delimiter line).zipIdx.foldlM (fun i p => i.tryPlace row p.2 p.1) i

/-- Reads a sheet from a text and ends at the first field that the sheet refuses. -/
def Import.tryOfText (delimiter : Char) (limits : Limits) (cs : List Char) :
    Except PositionError Import :=
  (linesOf cs).zipIdx.foldlM (fun i p => i.tryLine delimiter p.2 p.1) ⟨.empty limits, 0⟩

/-- Why a sheet cannot be read from a file. -/
inductive ReadError where
  /-- The file cannot be read. -/
  | io (reason : String)
  /-- The bytes at the given place, counted from one, encode no text. -/
  | encoding (row column : Nat)
  deriving DecidableEq, Repr

def ReadError.message : ReadError → String
  | io reason => "IO error: " ++ reason
  | encoding row column =>
    "Parse error at row " ++ Numeral.text row ++ ", column " ++ Numeral.text column ++
      ": invalid UTF-8"

/-- The place behind some bytes: the row, by the line feeds, and the column, by the bytes of the
last line that equal the delimiter. -/
def placeBehind (delimiter : Char) (bytes : List UInt8) : ReadError :=
  let line := bytes.reverse.takeWhile (· ≠ 0x0A)
  .encoding (bytes.countP (· == 0x0A) + 1)
    (line.countP (fun b => b.toNat == delimiter.toNat) + 1)

/-- **Reads a sheet with the given limits from the bytes of a file.** -/
def Import.ofBytes (delimiter : Char) (limits : Limits) (bytes : List UInt8) :
    Except ReadError Import :=
  match Utf8.decode bytes with
  | (cs, []) => .ok (.ofText delimiter limits cs)
  | (_, rest) => .error (placeBehind delimiter (bytes.take (bytes.length - rest.length)))

end Csv

end Spreadsheet
