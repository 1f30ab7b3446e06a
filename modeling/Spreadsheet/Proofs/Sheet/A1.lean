import Spreadsheet.Proofs.Formula.Lexing
import Spreadsheet.Proofs.Sheet.Rectangle

/-! # A1 texts

Which texts name a cell or a range, and what is read from the text of an address or a range. A text
names a cell if it is cut into a label that names a column and digits that name a row
(`Address.Wellformed`); no character of it is a blank or a colon (`Address.IsAlphanumeric`), so it
can stand in the text of a range and is found there again (`Range.read_join_eq_ok_iff`). Main
statement: `a1_exact`. -/

namespace Spreadsheet

/-! ### Texts of cells -/

namespace Address

variable {text : String} {label digits cs ds : List Char} {a b : Address}

/-- Letters and digits that are the A1 text of a cell together: the number that the letters stand
for is that of a column, and the number that the digits stand for is one that 32 bits hold. -/
structure Wellformed (label digits : List Char) : Prop where
  label_ne_nil : label ≠ []
  isLetter : ∀ c ∈ label, Column.isLetter c = true
  value_label_le : Column.value label ≤ 65536
  digits_ne_nil : digits ≠ []
  isDigit : ∀ c ∈ digits, Numeral.isDigit c = true
  one_le_value_digits : 1 ≤ Numeral.value digits
  value_digits_le : Numeral.value digits ≤ 4294967295

/-- The characters are letters and digits. -/
def IsAlphanumeric (cs : List Char) : Prop :=
  ∀ c ∈ cs, Column.isLetter c = true ∨ Numeral.isDigit c = true

theorem isAlphanumeric_append (hl : ∀ c ∈ label, Column.isLetter c = true)
    (hd : ∀ c ∈ digits, Numeral.isDigit c = true) : IsAlphanumeric (label ++ digits) :=
  fun c hc => (List.mem_append.mp hc).imp (hl c) (hd c)

theorem IsAlphanumeric.trim (h : IsAlphanumeric cs) : Text.trim cs = cs :=
  Text.trim_eq_self_of_forall fun c hc =>
    (h c hc).elim Token.isBlank_of_isLetter Token.isBlank_of_isDigit

theorem IsAlphanumeric.colon_not_mem (h : IsAlphanumeric cs) : ':' ∉ cs := by
  intro hc
  rcases h ':' hc with hcolon | hcolon
  · cases hcolon
  · cases hcolon

/-- Letters with digits behind them are cut apart where the digits begin. -/
theorem cut_append (hl : ∀ c ∈ label, Column.isLetter c = true)
    (hd : ∀ c ∈ digits, Numeral.isDigit c = true) :
    (label ++ digits).takeWhile Column.isLetter = label ∧
      (label ++ digits).dropWhile Column.isLetter = digits := by
  have hstop : ∀ c ∈ digits.head?, Column.isLetter c = false := fun c hc =>
    Token.isLetter_of_isDigit (hd c (List.mem_of_head? hc))
  exact ⟨List.takeWhile_append_stop hl hstop, List.dropWhile_append_stop hl hstop⟩

/-- What letters with digits behind them name, or what is wrong with them. -/
theorem read_append (htext : text.toList = label ++ digits) (hlabel : label ≠ [])
    (hl : ∀ c ∈ label, Column.isLetter c = true) (hdigits : digits ≠ [])
    (hd : ∀ c ∈ digits, Numeral.isDigit c = true) : read text =
      match Column.read label with
      | .error fault => .error fault
      | .ok column =>
        (Row.read? digits).elim (.error (.badRow text)) fun row => .ok ⟨row, column⟩ := by
  obtain ⟨htake, hdrop⟩ := cut_append hl hd
  have hall : digits.all Numeral.isDigit = true := List.all_eq_true.mpr hd
  simp only [read, htext, htake, hdrop, hlabel, hdigits, hall, not_true_eq_false, or_self, if_false]
  cases Column.read label with
  | error fault => rfl
  | ok column => cases Row.read? digits <;> rfl

/-- **A text names a cell exactly if it is a label of the column and digits of the row.** -/
theorem read_eq_ok_iff : read text = .ok a ↔ ∃ label digits, text.toList = label ++ digits ∧
    (∀ c ∈ digits, Numeral.isDigit c = true) ∧ Column.read label = .ok a.column ∧
      Row.read? digits = some a.row := by
  constructor
  · intro h
    refine ⟨text.toList.takeWhile Column.isLetter, text.toList.dropWhile Column.isLetter,
      List.takeWhile_append_dropWhile.symm, ?_⟩
    unfold read at h
    generalize text.toList.takeWhile Column.isLetter = label at h ⊢
    generalize text.toList.dropWhile Column.isLetter = digits at h ⊢
    dsimp only at h
    split at h
    · cases h
    · next hshape =>
      simp only [not_or, not_not] at hshape
      cases hcolumn : Column.read label with
      | error fault =>
        rw [hcolumn] at h
        cases h
      | ok column =>
        cases hrow : Row.read? digits with
        | none =>
          rw [hcolumn, hrow] at h
          cases h
        | some row =>
          rw [hcolumn, hrow] at h
          cases h
          exact ⟨List.all_eq_true.mp hshape.2.2, rfl, rfl⟩
  · rintro ⟨label, digits, htext, hdigits, hcolumn, hrow⟩
    have hlabel : label ≠ [] := by
      rintro rfl
      cases hcolumn
    have hne : digits ≠ [] := by
      rintro rfl
      cases hrow
    rw [read_append htext hlabel (Column.read_eq_ok_iff.mp hcolumn).1 hne hdigits, hcolumn, hrow]
    rfl

theorem isAlphanumeric_of_read (h : read text = .ok a) : IsAlphanumeric text.toList := by
  obtain ⟨label, digits, htext, hdigits, hcolumn, -⟩ := read_eq_ok_iff.mp h
  rw [htext]
  exact isAlphanumeric_append (Column.read_eq_ok_iff.mp hcolumn).1 hdigits

theorem isAlphanumeric_a1 (a : Address) : IsAlphanumeric a.a1.toList := by
  rw [a1, String.toList_ofList]
  exact isAlphanumeric_append Column.isLetter_of_mem_letters (Numeral.digits_isDigit _)

/-- **What a well-formed text names, and how that is written.** -/
theorem Wellformed.exists_read (h : Wellformed label digits) : ∃ a,
    read (String.ofList (label ++ digits)) = .ok a ∧
      a.a1 = String.ofList (label.map Column.capital ++ digits.dropWhile (· == '0')) := by
  have hcolumn : (UInt16.ofNat (Column.value label - 1)).toNat + 1 = Column.value label := by
    have := Column.value_pos h.label_ne_nil
    have := h.value_label_le
    rw [UInt16.toNat_ofNat_of_lt' (by simp only [UInt16.size]; omega)]
    omega
  have hrow : (UInt32.ofNat (Numeral.value digits - 1)).toNat + 1 = Numeral.value digits := by
    have := h.one_le_value_digits
    have := h.value_digits_le
    rw [UInt32.toNat_ofNat_of_lt' (by simp only [UInt32.size]; omega)]
    omega
  refine ⟨⟨UInt32.ofNat (Numeral.value digits - 1), UInt16.ofNat (Column.value label - 1)⟩, ?_, ?_⟩
  · refine read_eq_ok_iff.mpr ⟨label, digits, String.toList_ofList, h.isDigit, ?_, ?_⟩
    · exact Column.read_eq_ok_iff.mpr ⟨h.isLetter, hcolumn.symm⟩
    · exact (Row.read?_eq_some_iff h.isDigit).mpr
        ⟨hrow.symm, hrow.symm ▸ Nat.lt_succ_of_le h.value_digits_le⟩
  · have hpos : Numeral.value digits ≠ 0 := by
      have := h.one_le_value_digits
      omega
    rw [a1, Column.letters, hcolumn, hrow, Column.lettersOnto_value h.isLetter,
      Numeral.digits_value h.isDigit hpos]

theorem exists_wellformed (h : read text = .ok a) :
    ∃ label digits, text = String.ofList (label ++ digits) ∧ Wellformed label digits := by
  obtain ⟨label, digits, htext, hdigits, hcolumn, hrow⟩ := read_eq_ok_iff.mp h
  obtain ⟨hletters, hlabel⟩ := Column.read_eq_ok_iff.mp hcolumn
  obtain ⟨hvalue, hlt⟩ := (Row.read?_eq_some_iff hdigits).mp hrow
  have hcolumnSize := a.column.toNat_lt_size
  simp only [UInt16.size, UInt32.size] at hcolumnSize hlt
  refine ⟨label, digits, by rw [← htext, String.ofList_toList], ?_, hletters, by omega, ?_,
    hdigits, by omega, by omega⟩
  · rintro rfl
    cases hcolumn
  · rintro rfl
    cases hrow

/-- **The text of an address names the address**, but the last row of all has no number that 32
bits hold. -/
theorem read_a1 (a : Address) :
    read a.a1 = if a.row.toNat = 4294967295 then .error (.badRow a.a1) else .ok a := by
  have hlt := a.row.toNat_lt_size
  have hdigits := Numeral.digits_isDigit (a.row.toNat + 1)
  have htext : a.a1.toList = Column.letters a.column ++ Numeral.digits (a.row.toNat + 1) :=
    String.toList_ofList
  rw [read_append htext (Column.letters_ne_nil _) Column.isLetter_of_mem_letters
    (Numeral.digits_ne_nil _) hdigits, Column.read_letters, Row.read?_digits hdigits,
    Numeral.value_digits, Nat.add_sub_cancel, UInt32.ofNat_toNat]
  simp only [UInt32.size] at hlt ⊢
  split
  · next hfits => rw [if_neg (by omega), Option.elim_some]
  · next hlast => rw [if_pos (by omega), Option.elim_none]

theorem read_a1_eq_ok_iff : read a.a1 = .ok b ↔ a.row.toNat ≠ 4294967295 ∧ a = b := by
  rw [read_a1]
  split
  · next hlast => simp [hlast]
  · next hlast => simp [hlast]

/-- A text with a colon names no cell, whatever is trimmed from it. -/
theorem read_trim_colon (a : Address) :
    read (String.ofList (Text.trim (cs ++ ':' :: ds))) ≠ .ok a := by
  intro h
  have hcolon := (isAlphanumeric_of_read h).colon_not_mem
  rw [String.toList_ofList, Text.trim_append_cons (by decide)] at hcolon
  exact hcolon (List.mem_append_right _ List.mem_cons_self)

end Address

/-! ### Texts of ranges -/

namespace Range

variable {text : String} {t u left right : List Char} {r : Range} {a b : Address}

/-- What the texts on both sides of the first colon name. -/
theorem read_eq_ok_iff_of_colon (htext : Text.trim text.toList = left ++ ':' :: right)
    (hleft : ':' ∉ left) : read text = .ok r ↔ ∃ a b,
      Address.read (String.ofList (Text.trim left)) = .ok a ∧
        Address.read (String.ofList (Text.trim right)) = .ok b ∧ spanning a b = r := by
  have hall : ∀ c ∈ left, decide (c ≠ ':') = true := by
    intro c hc
    simpa using ne_of_mem_of_not_mem hc hleft
  have hstop : ∀ c ∈ (':' :: right).head?, decide (c ≠ ':') = false := by simp
  have htake := List.takeWhile_append_stop hall hstop
  have hdrop := List.dropWhile_append_stop hall hstop
  unfold read
  rw [htext]
  dsimp only
  rw [hdrop, htake]
  cases Address.read (String.ofList (Text.trim left)) with
  | error fault => simp [bind, Except.bind]
  | ok a =>
    cases hb : Address.read (String.ofList (Text.trim right)) with
    | error fault => simp [bind, Except.bind, hb]
    | ok b => simp [bind, Except.bind, pure, Except.pure, hb]

theorem read_join_eq_ok_iff_of_not_mem (ht : ':' ∉ t) :
    read (String.ofList (t ++ ':' :: u)) = .ok r ↔ ∃ a b,
      Address.read (String.ofList (Text.trim t)) = .ok a ∧
        Address.read (String.ofList (Text.trim u)) = .ok b ∧ spanning a b = r := by
  have htext : Text.trim (String.ofList (t ++ ':' :: u)).toList =
      Text.trimStart t ++ ':' :: Text.trimEnd u := by
    rw [String.toList_ofList, Text.trim_append_cons (by decide)]
  have hleft : ':' ∉ Text.trimStart t := fun h => ht ((List.dropWhile_sublist _).subset h)
  rw [read_eq_ok_iff_of_colon htext hleft, Text.trim_trimStart, Text.trim_trimEnd]

/-- **Two texts with a colon between them name the rectangle of the two cells they name.** -/
theorem read_join_eq_ok_iff : read (String.ofList (t ++ ':' :: u)) = .ok r ↔ ∃ a b,
    Address.read (String.ofList (Text.trim t)) = .ok a ∧
      Address.read (String.ofList (Text.trim u)) = .ok b ∧ spanning a b = r := by
  by_cases ht : ':' ∈ t
  · -- a text with two colons names no range: one of them stands in what is read as a cell
    obtain ⟨cs, ds, rfl, hcs⟩ := List.eq_append_cons_of_mem ht
    rw [List.append_assoc, List.cons_append, read_join_eq_ok_iff_of_not_mem hcs]
    constructor
    · rintro ⟨-, b, -, hb, -⟩
      exact absurd hb (Address.read_trim_colon b)
    · rintro ⟨a, -, ha, -, -⟩
      exact absurd ha (Address.read_trim_colon a)
  · exact read_join_eq_ok_iff_of_not_mem ht

/-- A text of letters and digits names no range but a single cell. -/
theorem read_eq_ok_iff_of_isAlphanumeric (h : Address.IsAlphanumeric text.toList) :
    read text = .ok r ↔ ∃ a, Address.read text = .ok a ∧ single a = r := by
  have hdrop : text.toList.dropWhile (· ≠ ':') = [] := by
    rw [List.dropWhile_eq_nil_iff]
    intro c hc
    simpa using ne_of_mem_of_not_mem hc h.colon_not_mem
  unfold read
  rw [h.trim]
  dsimp only
  rw [hdrop, String.ofList_toList]
  cases Address.read text with
  | error fault => simp
  | ok a => simp

theorem eq_of_corners {s : Range} (hfirst : r.first = s.first) (hlast : r.last = s.last) :
    r = s := by
  obtain ⟨first, last, hrow, hcolumn⟩ := r
  obtain ⟨first', last', hrow', hcolumn'⟩ := s
  cases hfirst
  cases hlast
  rfl

/-- **The order of two corners does not matter.** -/
theorem spanning_comm (a b : Address) : spanning a b = spanning b a := by
  obtain ⟨⟨hfirstRow, hlastRow⟩, hfirstColumn, hlastColumn⟩ := toNat_spanning a b
  obtain ⟨⟨hfirstRow', hlastRow'⟩, hfirstColumn', hlastColumn'⟩ := toNat_spanning b a
  refine eq_of_corners (Address.toNat_inj.mp ⟨?_, ?_⟩) (Address.toNat_inj.mp ⟨?_, ?_⟩)
  · rw [hfirstRow, hfirstRow', Nat.min_comm]
  · rw [hfirstColumn, hfirstColumn', Nat.min_comm]
  · rw [hlastRow, hlastRow', Nat.max_comm]
  · rw [hlastColumn, hlastColumn', Nat.max_comm]

theorem spanning_first_last (r : Range) : spanning r.first r.last = r :=
  eq_of_corners (by simp only [spanning, r.row_le, r.column_le, if_true])
    (by simp only [spanning, r.row_le, r.column_le, if_true])

theorem join_eq_ofList (s t : String) :
    s ++ ":" ++ t = String.ofList (s.toList ++ ':' :: t.toList) := by
  rw [← String.toList_inj]
  simp

/-- **The text of a range names the range**, if the last row of all is not part of it. -/
theorem read_a1_eq_ok_iff (r : Range) : read r.a1 = .ok r ↔ r.last.row.toNat < 4294967295 := by
  have hlt := r.last.row.toNat_lt_size
  have hle := UInt32.le_iff_toNat_le.mp r.row_le
  simp only [UInt32.size] at hlt
  unfold a1
  split
  · next heq =>
    rw [read_eq_ok_iff_of_isAlphanumeric (Address.isAlphanumeric_a1 _)]
    simp only [Address.read_a1_eq_ok_iff]
    constructor
    · rintro ⟨-, ⟨hfirst, -⟩, -⟩
      rw [heq] at hfirst
      omega
    · intro hlast
      exact ⟨r.first, ⟨by omega, rfl⟩, eq_of_corners rfl heq⟩
  · rw [join_eq_ofList, read_join_eq_ok_iff, (Address.isAlphanumeric_a1 _).trim,
      (Address.isAlphanumeric_a1 _).trim, String.ofList_toList, String.ofList_toList]
    simp only [Address.read_a1_eq_ok_iff]
    constructor
    · rintro ⟨-, -, -, ⟨hlast, -⟩, -⟩
      omega
    · intro hlast
      exact ⟨r.first, r.last, ⟨by omega, rfl⟩, ⟨by omega, rfl⟩, spanning_first_last r⟩

/-- **Two texts with a colon between them name the same range in either order.** -/
theorem read_join_comm (s t : String) (r : Range) :
    read (s ++ ":" ++ t) = .ok r ↔ read (t ++ ":" ++ s) = .ok r := by
  rw [join_eq_ofList, join_eq_ofList, read_join_eq_ok_iff, read_join_eq_ok_iff]
  constructor
  · rintro ⟨a, b, ha, hb, rfl⟩
    exact ⟨b, a, hb, ha, spanning_comm b a⟩
  · rintro ⟨a, b, ha, hb, rfl⟩
    exact ⟨b, a, hb, ha, spanning_comm b a⟩

theorem read_join {s t : String} (ha : Address.read s = .ok a) (hb : Address.read t = .ok b) :
    read (s ++ ":" ++ t) = .ok (spanning a b) := by
  rw [join_eq_ofList, read_join_eq_ok_iff, (Address.isAlphanumeric_of_read ha).trim,
    (Address.isAlphanumeric_of_read hb).trim, String.ofList_toList, String.ofList_toList]
  exact ⟨a, b, ha, hb, rfl⟩

end Range

/-! ### The format -/

/-- **A1 texts are an exact format.** A text names a cell exactly if it is letters that stand for a
column and digits that stand for a row, and the text of that cell is the same in upper case and
without leading zeros. An address and a range are named by their texts, up to the last row of all,
whose number 32 bits do not hold. The corners of a range may stand in either order. -/
theorem a1_exact :
    (∀ text, (∃ a, Address.read text = .ok a) ↔ ∃ label digits,
      text = String.ofList (label ++ digits) ∧ Address.Wellformed label digits) ∧
    (∀ label digits, Address.Wellformed label digits → ∃ a,
      Address.read (String.ofList (label ++ digits)) = .ok a ∧
        a.a1 = String.ofList (label.map Column.capital ++ digits.dropWhile (· == '0'))) ∧
    (∀ a : Address, Address.read a.a1 =
      if a.row.toNat = 4294967295 then .error (.badRow a.a1) else .ok a) ∧
    (∀ r : Range, Range.read r.a1 = .ok r ↔ r.last.row.toNat < 4294967295) ∧
    (∀ s t r, Range.read (s ++ ":" ++ t) = .ok r ↔ Range.read (t ++ ":" ++ s) = .ok r) ∧
    ∀ s t a b, Address.read s = .ok a → Address.read t = .ok b →
      Range.read (s ++ ":" ++ t) = .ok (.spanning a b) := by
  refine ⟨fun text => ⟨?_, ?_⟩, fun _ _ h => h.exists_read, Address.read_a1,
    Range.read_a1_eq_ok_iff, Range.read_join_comm, fun _ _ _ _ => Range.read_join⟩
  · rintro ⟨a, ha⟩
    exact Address.exists_wellformed ha
  · rintro ⟨label, digits, rfl, h⟩
    obtain ⟨a, ha, -⟩ := h.exists_read
    exact ⟨a, ha⟩

/-- The widest label that is well-formed, with leading zeros in front of its row; a range with its
corners the other way round; and the last row of all. -/
theorem a1_exact_widest :
    Address.Wellformed "cRxP".toList "007".toList ∧
    (∃ a, Address.read "cRxP007" = .ok a ∧ a.a1 = "CRXP7") ∧
    (Address.read "c10" = .ok ⟨9, 2⟩ ∧ Address.read "B2" = .ok ⟨1, 1⟩ ∧
      Range.read "c10:B2" = .ok (.spanning ⟨9, 2⟩ ⟨1, 1⟩)) ∧
    Address.read (Address.a1 ⟨4294967295, 0⟩) =
      .error (.badRow (Address.a1 ⟨4294967295, 0⟩)) := by
  have h : Address.Wellformed "cRxP".toList "007".toList :=
    ⟨by decide, List.all_eq_true.mp (by decide), by decide, by decide,
      List.all_eq_true.mp (by decide), by decide, by decide⟩
  have htext : String.ofList ("cRxP".toList ++ "007".toList) = "cRxP007" := by decide
  have hwritten : String.ofList ("cRxP".toList.map Column.capital ++
      "007".toList.dropWhile (· == '0')) = "CRXP7" := by decide
  obtain ⟨-, hread, hlast, -, -, hjoin⟩ := a1_exact
  have hwidest := hread _ _ h
  rw [htext, hwritten] at hwidest
  have ha : Address.read "c10" = .ok ⟨9, 2⟩ := by decide
  have hb : Address.read "B2" = .ok ⟨1, 1⟩ := by decide
  have hjoined : "c10" ++ ":" ++ "B2" = "c10:B2" := by decide
  have hrange := hjoin _ _ _ _ ha hb
  rw [hjoined] at hrange
  exact ⟨h, hwidest, ⟨ha, hb, hrange⟩, (hlast ⟨4294967295, 0⟩).trans (if_pos rfl)⟩

end Spreadsheet
