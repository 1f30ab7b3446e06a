import Mathlib.Data.List.Induction
import Spreadsheet.Address

/-! # Labels of columns and numbers of rows

Which labels name a column and which digits name a row, without the bounds that reading checks on
the way.

* `Column.read_eq_ok_iff`: a text names a column exactly if it is letters and stands for the number
  of the column. The reading stops where 32 bits are exceeded, and a number that exceeds them does
  not get smaller by further letters (`Column.le_onto`).
* `Column.read_letters`: the label of a column names it.
* `Column.lettersOnto_value`: letters are written, in upper case, for the number they stand for. So
  no number has two labels.
* `Row.read?_eq_some_iff`: digits name a row exactly if they stand for its number, which 32 bits
  hold. The last row has no such number.
* `Numeral.digits_value`: digits are written, behind leading zeros, for the number they stand for.
-/

namespace Spreadsheet

namespace Column

variable {label rest : List Char} {c : Char} {n m : UInt32}

/-! ### Letters -/

theorem isLetter_iff : isLetter c = true ↔
    65 ≤ c.toNat ∧ c.toNat ≤ 90 ∨ 97 ≤ c.toNat ∧ c.toNat ≤ 122 := by
  simp only [isLetter, Bool.or_eq_true, Bool.and_eq_true, decide_eq_true_eq, Char.le_def,
    UInt32.le_iff_toNat_le]
  exact Iff.rfl

theorem letterValue_pos (c : Char) : 0 < letterValue c := Nat.succ_pos _

theorem isLetter_letter {k : Nat} (h : k < 26) : isLetter (letter k) = true :=
  (by decide : ∀ k < 26, isLetter (letter k) = true) k h

theorem letterValue_letter {k : Nat} (h : k < 26) : letterValue (letter k) = k + 1 :=
  (by decide : ∀ k < 26, letterValue (letter k) = k + 1) k h

/-! ### Writing labels -/

/-- What is already written stays behind the letters. -/
theorem lettersOnto_eq (k : Nat) (acc : List Char) :
    lettersOnto k acc = lettersOnto k [] ++ acc := by
  induction k using Nat.strongRecOn generalizing acc with
  | ind k ih =>
    by_cases h : k = 0
    · simp [h, lettersOnto_zero]
    · have hlt : (k - 1) / 26 < k := by omega
      rw [lettersOnto_pos h, lettersOnto_pos h, ih _ hlt, ih _ hlt [_], List.append_assoc,
        List.singleton_append]

theorem lettersOnto_succ (k : Nat) :
    lettersOnto (k + 1) [] = lettersOnto (k / 26) [] ++ [letter (k % 26)] := by
  rw [lettersOnto_pos (Nat.succ_ne_zero k), lettersOnto_eq]
  rfl

/-- **A number has a label that stands for it.** -/
theorem value_lettersOnto (k : Nat) : value (lettersOnto k []) = k := by
  induction k using Nat.strongRecOn with
  | ind k ih =>
    cases k with
    | zero => rw [lettersOnto_zero]; rfl
    | succ k =>
      rw [lettersOnto_succ, value_append_singleton, ih _ (by omega),
        letterValue_letter (Nat.mod_lt k (by decide))]
      omega

theorem isLetter_of_mem_lettersOnto (k : Nat) : ∀ c ∈ lettersOnto k [], isLetter c = true := by
  induction k using Nat.strongRecOn with
  | ind k ih =>
    cases k with
    | zero => simp [lettersOnto_zero]
    | succ k =>
      intro c hc
      rw [lettersOnto_succ, List.mem_append, List.mem_singleton] at hc
      rcases hc with hc | rfl
      · exact ih _ (by omega) c hc
      · exact isLetter_letter (Nat.mod_lt k (by decide))

theorem toNat_letter {k : Nat} (h : k < 26) : (letter k).toNat = 'A'.toNat + k :=
  (by decide : ∀ k < 26, (letter k).toNat = 'A'.toNat + k) k h

/-- A letter in upper case is one that labels are written with. -/
theorem exists_letter (h : isLetter c = true) : ∃ k < 26, capital c = letter k := by
  have hA : 'A'.toNat = 65 := rfl
  have hsmall : ('a' ≤ c && c ≤ 'z') = true ↔ 97 ≤ c.toNat ∧ c.toNat ≤ 122 := by
    simp only [Bool.and_eq_true, decide_eq_true_eq, Char.le_def, UInt32.le_iff_toNat_le]
    exact Iff.rfl
  have hc := isLetter_iff.mp h
  unfold capital
  split
  · next hs =>
    have := hsmall.mp hs
    refine ⟨c.toNat - 97, by omega, congrArg Char.ofNat ?_⟩
    omega
  · next hs =>
    have := mt hsmall.mpr hs
    refine ⟨c.toNat - 65, by omega, ?_⟩
    rw [letter, hA, Nat.add_sub_cancel' (by omega), Char.ofNat_toNat]

/-- A letter is worth one to twenty-six, and in upper case it is the letter with that worth. -/
theorem letterValue_letter_capital (h : isLetter c = true) :
    letterValue c ≤ 26 ∧ letter (letterValue c - 1) = capital c := by
  obtain ⟨k, hk, hcapital⟩ := exists_letter h
  have hvalue : letterValue c = k + 1 := by
    rw [letterValue, hcapital, toNat_letter hk, Nat.add_sub_cancel_left]
  rw [hvalue, hcapital]
  exact ⟨hk, rfl⟩

/-- **Letters are written as the label of the number they stand for**, in upper case. -/
theorem lettersOnto_value (h : ∀ c ∈ label, isLetter c = true) :
    lettersOnto (value label) [] = label.map capital := by
  induction label using List.reverseRecOn with
  | nil => exact lettersOnto_zero []
  | append_singleton label c ih =>
    obtain ⟨hlabel, hc⟩ := List.forall_mem_append.mp h
    have hc : isLetter c = true := hc c List.mem_cons_self
    have hpos := letterValue_pos c
    obtain ⟨hle, hletter⟩ := letterValue_letter_capital hc
    have hvalue : value (label ++ [c]) = 26 * value label + (letterValue c - 1) + 1 := by
      rw [value_append_singleton]
      omega
    rw [hvalue, lettersOnto_succ, Nat.mul_add_div (by decide), Nat.mul_add_mod,
      Nat.div_eq_of_lt (by omega), Nat.mod_eq_of_lt (by omega), Nat.add_zero, ih hlabel,
      hletter, List.map_append, List.map_singleton]

theorem value_letters (column : UInt16) : value (letters column) = column.toNat + 1 :=
  value_lettersOnto _

theorem isLetter_of_mem_letters {column : UInt16} : ∀ c ∈ letters column, isLetter c = true :=
  isLetter_of_mem_lettersOnto _

theorem letters_ne_nil (column : UInt16) : letters column ≠ [] := by
  rw [letters, lettersOnto_succ]
  simp

/-! ### Reading labels -/

/-- The number that letters stand for behind another number. -/
def onto (k : Nat) (rest : List Char) : Nat := rest.foldl (fun n c => 26 * n + letterValue c) k

theorem onto_cons (k : Nat) (c : Char) (rest : List Char) :
    onto k (c :: rest) = onto (26 * k + letterValue c) rest := List.foldl_cons ..

/-- **Further letters make a number no smaller.** -/
theorem le_onto (k : Nat) (rest : List Char) : k ≤ onto k rest := by
  induction rest generalizing k with
  | nil => exact Nat.le_refl k
  | cons c rest ih =>
    have hstep : k ≤ 26 * k + letterValue c := by omega
    rw [onto_cons]
    exact Nat.le_trans hstep (ih _)

theorem value_pos (h : label ≠ []) : 0 < value label := by
  obtain ⟨c, rest, rfl⟩ := List.exists_cons_of_ne_nil h
  have hvalue : value (c :: rest) = onto (letterValue c) rest := by
    rw [← Nat.zero_add (letterValue c), ← Nat.mul_zero 26, ← onto_cons]
    rfl
  rw [hvalue]
  exact Nat.lt_of_lt_of_le (letterValue_pos c) (le_onto _ rest)

theorem push_eq_some_iff : push n c = some m ↔ 26 * n.toNat + letterValue c = m.toNat := by
  unfold push
  generalize 26 * n.toNat + letterValue c = k
  have hm := m.toNat_lt_size
  simp only
  split
  · next hk =>
    rw [Option.some.injEq, ← UInt32.toNat_inj, UInt32.toNat_ofNat_of_lt' hk]
  · next hk =>
    simp only [reduceCtorEq, false_iff]
    omega

theorem push_eq_none_iff : push n c = none ↔ UInt32.size ≤ 26 * n.toNat + letterValue c := by
  unfold push
  generalize 26 * n.toNat + letterValue c = k
  simp only [ite_eq_right_iff, reduceCtorEq, imp_false, Nat.not_lt]

/-- **What is read from a label** is the number it stands for, if 32 bits hold it. -/
theorem scan_eq_ok_iff :
    scan label n rest = .ok m ↔ (∀ c ∈ rest, isLetter c = true) ∧ onto n.toNat rest = m.toNat := by
  induction rest generalizing n with
  | nil =>
    simp only [scan, Except.ok.injEq, onto, List.foldl_nil, UInt32.toNat_inj, List.not_mem_nil,
      false_imp_iff, implies_true, true_and]
  | cons c rest ih =>
    simp only [List.forall_mem_cons, onto_cons, scan]
    cases hc : isLetter c with
    | false => simp only [Bool.false_eq_true, if_false, reduceCtorEq, false_and]
    | true =>
      simp only [if_true, true_and]
      cases hpush : push n c with
      | some k => simp only [Option.elim_some, ih, push_eq_some_iff.mp hpush]
      | none =>
        have hle := le_onto (26 * n.toNat + letterValue c) rest
        have hlarge := push_eq_none_iff.mp hpush
        have hm := m.toNat_lt_size
        simp only [Option.elim_none, reduceCtorEq, false_iff]
        omega

/-- **A text names a column exactly if it is letters that stand for its number.** -/
theorem read_eq_ok_iff {column : UInt16} : read label = .ok column ↔
    (∀ c ∈ label, isLetter c = true) ∧ value label = column.toNat + 1 := by
  have hcolumn := column.toNat_lt_size
  unfold read
  split
  · next hempty =>
    rw [List.isEmpty_iff.mp hempty]
    simp [value]
  · next hne =>
    have hpos : 0 < value label := value_pos (by simpa using hne)
    have hscan : ∀ m, scan label 0 label = .ok m ↔
        (∀ c ∈ label, isLetter c = true) ∧ value label = m.toNat := fun m => scan_eq_ok_iff
    split
    · next fault hfault =>
      simp only [reduceCtorEq, false_iff]
      rintro ⟨hletters, hvalue⟩
      have hlt : value label < UInt32.size := by
        have hsize : UInt16.size < UInt32.size := by decide
        omega
      have hok := (hscan (UInt32.ofNat (value label))).mpr
        ⟨hletters, (UInt32.toNat_ofNat_of_lt' hlt).symm⟩
      rw [hok] at hfault
      cases hfault
    · next n hn =>
      obtain ⟨hletters, hvalue⟩ := (hscan n).mp hn
      split
      · next hle =>
        have hlt : n.toNat - 1 < UInt16.size := by omega
        rw [Except.ok.injEq, ← UInt16.toNat_inj, UInt16.toNat_ofNat_of_lt' hlt,
          and_iff_right hletters]
        omega
      · next hgt =>
        simp only [reduceCtorEq, false_iff]
        omega

theorem read_letters (column : UInt16) : read (letters column) = .ok column :=
  read_eq_ok_iff.mpr ⟨isLetter_of_mem_letters, value_letters column⟩

end Column

/-! ### Digits -/

section

variable {cs : List Char}

namespace Numeral

theorem value_eq_zero (h : ∀ c ∈ cs, isDigit c = true) (hv : value cs = 0) :
    ∀ c ∈ cs, c = '0' := by
  induction cs using List.reverseRecOn with
  | nil => simp
  | append_singleton cs d ih =>
    obtain ⟨hcs, hd⟩ := List.forall_mem_append.mp h
    have hd : isDigit d = true := hd d List.mem_cons_self
    rw [value_append_singleton] at hv
    have hlast : d = '0' := by
      rw [← digitChar_digitValue hd, show digitValue d = 0 by omega]
      rfl
    rw [List.forall_mem_append, List.forall_mem_singleton]
    exact ⟨ih hcs (by omega), hlast⟩

/-- **Digits are the digits of the number they stand for behind leading zeros.** -/
theorem digits_value (h : ∀ c ∈ cs, isDigit c = true) (hv : value cs ≠ 0) :
    digits (value cs) = cs.dropWhile (· == '0') := by
  induction cs using List.reverseRecOn with
  | nil => exact absurd rfl hv
  | append_singleton cs d ih =>
    obtain ⟨hcs, hd⟩ := List.forall_mem_append.mp h
    have hd : isDigit d = true := hd d List.mem_cons_self
    have hlt := digitValue_lt hd
    rw [value_append_singleton] at hv ⊢
    by_cases hzero : value cs = 0
    · -- all that stands in front of the last digit are zeros
      have hzeros : ∀ c ∈ cs, (c == '0') = true := by simpa using value_eq_zero hcs hzero
      have hne : d ≠ '0' := by
        rintro rfl
        exact hv (by rw [hzero]; rfl)
      rw [List.dropWhile_append_of_pos hzeros, List.dropWhile_cons_of_neg (by simpa using hne),
        hzero, Nat.mul_zero, Nat.zero_add, digits_lt hlt, digitChar_digitValue hd]
    · have hne : cs.dropWhile (· == '0') ≠ [] := by
        rw [← ih hcs hzero]
        exact digits_ne_nil _
      rw [digits_ge (by omega), Nat.mul_add_div (by decide), Nat.mul_add_mod,
        Nat.div_eq_of_lt hlt, Nat.mod_eq_of_lt hlt, Nat.add_zero, ih hcs hzero,
        digitChar_digitValue hd, List.dropWhile_append, if_neg (by simpa using hne)]

end Numeral

end

/-! ### Rows -/

variable {digits : List Char}

/-- Digits have no sign in front. -/
theorem Row.read?_digits (h : ∀ c ∈ digits, Numeral.isDigit c = true) : Row.read? digits =
    if 1 ≤ Numeral.value digits ∧ Numeral.value digits < UInt32.size then
      some (UInt32.ofNat (Numeral.value digits - 1))
    else none := by
  have hall : digits.all Numeral.isDigit = true := List.all_eq_true.mpr h
  have hnil : 1 ≤ Numeral.value digits → digits ≠ [] := by
    rintro hpos rfl
    cases hpos
  unfold Row.read?
  split
  · cases h '+' List.mem_cons_self
  · simp only [hall, true_and, and_iff_right_of_imp fun hn => hnil (And.left hn)]

/-- **Digits name a row exactly if they stand for its number**, within 32 bits. -/
theorem Row.read?_eq_some_iff {row : UInt32} (h : ∀ c ∈ digits, Numeral.isDigit c = true) :
    Row.read? digits = some row ↔
      Numeral.value digits = row.toNat + 1 ∧ row.toNat + 1 < UInt32.size := by
  rw [Row.read?_digits h]
  generalize Numeral.value digits = n
  split
  · next hn =>
    rw [Option.some.injEq, ← UInt32.toNat_inj, UInt32.toNat_ofNat_of_lt' (by omega)]
    omega
  · next hn =>
    simp only [reduceCtorEq, false_iff]
    omega

end Spreadsheet
