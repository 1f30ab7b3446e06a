import Mathlib.Data.List.Shortlex
import Mathlib.Data.Nat.Digits.Defs
import Spreadsheet.Proofs.Sheet.Label

/-! # Columns and their labels

Columns and their labels are one to one, and labels in alphabetical order, the shorter ones first,
name the columns from left to right. Main statement: `Column.labels_exact`.

* `value_eq_ofDigits`: a label stands for the number whose digits in base 26 are the worths of its
  letters. No worth is zero, so this is not the usual base 26.
* `lettersOnto_lt_iff`: the labels of two numbers compare as the numbers do, by induction on the
  part of the number that the last letter leaves.
* `Words` reads and writes labels with the arithmetic of 32 bits: products and sums that are
  checked, a difference and a quotient that are not. `Words.read_eq` and `Words.letters_eq`: nothing
  is lost by that. -/

namespace Spreadsheet.Column

variable {label : List Char} {c : Char} {n m p : UInt32} {i j k l : Nat}

/-! ### The number of a label -/

theorem onto_eq_ofDigits (k : Nat) (label : List Char) :
    onto k label = Nat.ofDigits 26 ((label.map letterValue).reverse ++ [k]) := by
  induction label generalizing k with
  | nil => simp [onto]
  | cons c label ih =>
    rw [onto_cons, ih, List.map_cons, List.reverse_cons, Nat.ofDigits_append, Nat.ofDigits_append,
      Nat.ofDigits_append]
    simp only [Nat.ofDigits_singleton, List.length_append, List.length_singleton, pow_succ]
    ring

/-- **A label stands for the number that has the worths of its letters as digits.** -/
theorem value_eq_ofDigits (label : List Char) :
    value label = Nat.ofDigits 26 (label.map letterValue).reverse := by
  have h := onto_eq_ofDigits 0 label
  rwa [Nat.ofDigits_append, Nat.ofDigits_singleton, Nat.mul_zero, Nat.add_zero] at h

/-! ### The order of labels -/

section

variable {α : Type} {r : α → α → Prop} {s t : List α} {a b : α}

/-- Of two texts of the same length the last character decides if the others are the same. -/
theorem lex_append_singleton (h : s.length = t.length) :
    List.Lex r (s ++ [a]) (t ++ [b]) ↔ List.Lex r s t ∨ s = t ∧ r a b := by
  induction s generalizing t with
  | nil =>
    obtain rfl := List.length_eq_zero_iff.mp h.symm
    simp
  | cons x s ih =>
    cases t with
    | nil => cases h
    | cons y t =>
      rw [List.cons_append, List.cons_append, List.cons_lex_cons_iff, List.cons_lex_cons_iff,
        ih (Nat.succ_inj.mp h), List.cons.injEq]
      tauto

theorem shortlex_append_singleton :
    List.Shortlex r (s ++ [a]) (t ++ [b]) ↔ List.Shortlex r s t ∨ s = t ∧ r a b := by
  simp only [List.shortlex_def, List.length_append, List.length_singleton,
    Nat.add_lt_add_iff_right, Nat.add_right_cancel_iff]
  by_cases h : s.length = t.length
  · rw [lex_append_singleton h]
    tauto
  · have hne : s ≠ t := fun heq => h (congrArg List.length heq)
    simp only [h, hne, false_and, or_false]

end

theorem letter_lt_iff (hi : i < 26) (hj : j < 26) : letter i < letter j ↔ i < j := by
  rw [Char.lt_def, UInt32.lt_iff_toNat_lt]
  show (letter i).toNat < (letter j).toNat ↔ _
  rw [toNat_letter hi, toNat_letter hj, Nat.add_lt_add_iff_left]

theorem lettersOnto_inj : lettersOnto k [] = lettersOnto l [] ↔ k = l := by
  constructor
  · intro h
    rw [← value_lettersOnto k, h, value_lettersOnto]
  · rintro rfl
    rfl

/-- **Numbers compare as their labels do**, by length first and then by the alphabet. The last
letter of a label stands for the remainder of the number, and the others for its quotient. -/
theorem lettersOnto_lt_iff (k l : Nat) :
    k < l ↔ List.Shortlex (· < ·) (lettersOnto k []) (lettersOnto l []) := by
  induction k using Nat.strongRecOn generalizing l with
  | ind k ih =>
    cases l with
    | zero => simp [lettersOnto_zero]
    | succ l =>
      cases k with
      | zero => simp [lettersOnto_zero, lettersOnto_succ, List.Shortlex.of_length_lt]
      | succ k =>
        have hfront := ih (k / 26) (by omega) (l / 26)
        have hlast := letter_lt_iff (Nat.mod_lt k (by decide)) (Nat.mod_lt l (by decide))
        rw [lettersOnto_succ, lettersOnto_succ, shortlex_append_singleton, ← hfront,
          lettersOnto_inj, hlast]
        omega

theorem letters_lt_iff (a b : UInt16) : a < b ↔
    (letters a).length < (letters b).length ∨
      (letters a).length = (letters b).length ∧ letters a < letters b := by
  rw [UInt16.lt_iff_toNat_lt, ← Nat.add_lt_add_iff_right, lettersOnto_lt_iff, List.shortlex_def]
  exact Iff.rfl

/-! ### Labels in words -/

namespace Words

/-- The product of two words, if a word holds it. -/
def product? (n m : UInt32) : Option UInt32 :=
  if n.toBitVec.umulOverflow m.toBitVec then none else some (n * m)

/-- The sum of two words, if a word holds it. -/
def sum? (n m : UInt32) : Option UInt32 :=
  if n.toBitVec.uaddOverflow m.toBitVec then none else some (n + m)

/-- What a letter is worth. -/
def letterValue (c : Char) : UInt32 := (capital c).val - 'A'.val + 1

/-- One more letter behind a number. -/
def push (n : UInt32) (c : Char) : Option UInt32 :=
  (product? n 26).bind fun m => sum? m (letterValue c)

/-- Reads the letters `rest` of a label behind the number `n`. -/
def scan (label : List Char) (n : UInt32) : (rest : List Char) → Except AddressFault UInt32
  | [] => .ok n
  | c :: rest =>
    if isLetter c then
      (push n c).elim (.error (.columnTooLarge (String.ofList label))) fun m => scan label m rest
    else .error (.badLetter c)

/-- The column of a label. It is counted from zero, so one is taken from the number that has been
read, which is not checked. -/
def read (label : List Char) : Except AddressFault UInt16 :=
  if label.isEmpty then .error .emptyLabel
  else
    match scan label 0 label with
    | .error fault => .error fault
    | .ok n =>
      if n - 1 ≤ 65535 then .ok (n - 1).toUInt16
      else .error (.columnTooLarge (String.ofList label))

theorem toNat_sub_one (h : n ≠ 0) : n.toNat ≠ 0 ∧ (n - 1).toNat = n.toNat - 1 := by
  have hpos : n.toNat ≠ 0 := fun hzero => h (UInt32.toNat_inj.mp hzero)
  exact ⟨hpos, UInt32.toNat_sub_of_le _ _ (UInt32.le_iff_toNat_le.mpr (Nat.pos_of_ne_zero hpos))⟩

theorem toNat_quotient (h : n ≠ 0) : ((n - 1) / 26).toNat = (n.toNat - 1) / 26 := by
  rw [UInt32.toNat_div, (toNat_sub_one h).2]
  rfl

/-- The label of the number `n` before the letters `acc`. -/
def lettersOnto (n : UInt32) (acc : List Char) : List Char :=
  if n = 0 then acc
  else lettersOnto ((n - 1) / 26) (Char.ofUInt8 (((n - 1) % 26).toUInt8 + 'A'.toUInt8) :: acc)
termination_by n.toNat
decreasing_by
  have hpos := (toNat_sub_one ‹_›).1
  rw [toNat_quotient ‹_›]
  omega

/-- The label of a column. -/
def letters (column : UInt16) : List Char := lettersOnto (column.toUInt32 + 1) []

/-! Each of these gives what is given without a bound on numbers. -/

theorem product?_eq_some_iff : product? n m = some p ↔ n.toNat * m.toNat = p.toNat := by
  have hp := p.toNat_lt
  unfold product? BitVec.umulOverflow
  simp only [UInt32.toNat_toBitVec, decide_eq_true_eq]
  split
  · next hlarge =>
    simp only [reduceCtorEq, false_iff]
    omega
  · next hsmall =>
    rw [Option.some.injEq, ← UInt32.toNat_inj, UInt32.toNat_mul, Nat.mod_eq_of_lt (by omega)]

theorem sum?_eq_some_iff : sum? n m = some p ↔ n.toNat + m.toNat = p.toNat := by
  have hp := p.toNat_lt
  unfold sum? BitVec.uaddOverflow
  simp only [UInt32.toNat_toBitVec, decide_eq_true_eq]
  split
  · next hlarge =>
    simp only [reduceCtorEq, false_iff]
    omega
  · next hsmall =>
    rw [Option.some.injEq, ← UInt32.toNat_inj, UInt32.toNat_add, Nat.mod_eq_of_lt (by omega)]

theorem toNat_letterValue (h : isLetter c = true) :
    (letterValue c).toNat = Column.letterValue c := by
  obtain ⟨i, hi, hcapital⟩ := exists_letter h
  rw [letterValue, Column.letterValue, hcapital]
  exact (by decide : ∀ i < 26, ((letter i).val - 'A'.val + 1).toNat =
    (letter i).toNat - 'A'.toNat + 1) i hi

/-- **The checks of a step refuse a letter exactly if 32 bits do not hold the number.** -/
theorem push_eq (h : isLetter c = true) (n : UInt32) : push n c = Column.push n c := by
  have hletter : Column.letterValue c ≤ 26 := (letterValue_letter_capital h).1
  ext m
  have hm := m.toNat_lt
  rw [push, Option.bind_eq_some_iff, push_eq_some_iff]
  simp only [product?_eq_some_iff, sum?_eq_some_iff, toNat_letterValue h]
  constructor
  · rintro ⟨p, hp, hsum⟩
    rw [← hsum, ← hp, Nat.mul_comm]
    rfl
  · intro hsum
    have hlt : 26 * n.toNat < UInt32.size := by
      simp only [UInt32.size]
      omega
    refine ⟨UInt32.ofNat (26 * n.toNat), ?_, ?_⟩
    · rw [UInt32.toNat_ofNat_of_lt' hlt, Nat.mul_comm]
      rfl
    · rw [UInt32.toNat_ofNat_of_lt' hlt, hsum]

theorem scan_eq (label : List Char) (n : UInt32) (rest : List Char) :
    scan label n rest = Column.scan label n rest := by
  induction rest generalizing n with
  | nil => rfl
  | cons c rest ih =>
    rw [scan, Column.scan]
    split
    · next hc => rw [push_eq hc, funext ih]
    · rfl

end Words

/-- The number that has been read from a label is not zero. -/
theorem one_le_of_scan (hlabel : label ≠ []) (h : scan label 0 label = .ok n) : 1 ≤ n := by
  have hvalue : value label = n.toNat := (scan_eq_ok_iff.mp h).2
  rw [UInt32.le_iff_toNat_le, ← hvalue]
  exact value_pos hlabel

namespace Words

theorem read_eq (label : List Char) : read label = Column.read label := by
  unfold read Column.read
  split
  · rfl
  · next hempty =>
    have hlabel : label ≠ [] := by simpa using hempty
    rw [scan_eq]
    cases hscan : Column.scan label 0 label with
    | error fault => rfl
    | ok n =>
      have hone := one_le_of_scan hlabel hscan
      have hless : (n - 1).toNat = n.toNat - 1 := UInt32.toNat_sub_of_le _ _ hone
      have hfits : n - 1 ≤ 65535 ↔ n.toNat ≤ UInt16.size := by
        rw [UInt32.le_iff_toNat_le, hless, UInt16.size]
        show n.toNat - 1 ≤ 65535 ↔ _
        omega
      have hcolumn : (n - 1).toUInt16 = UInt16.ofNat (n.toNat - 1) := by
        rw [← UInt16.toNat_inj, UInt32.toNat_toUInt16, UInt16.toNat_ofNat', hless]
      simp only [hfits, hcolumn]

/-- The letter with a number below twenty-six. -/
theorem ofUInt8_eq_letter (h : n.toNat < 26) :
    Char.ofUInt8 (n.toUInt8 + 'A'.toUInt8) = letter n.toNat := by
  have hbyte : n.toUInt8 = UInt8.ofNat n.toNat := by
    rw [← UInt8.toNat_inj, UInt32.toNat_toUInt8, UInt8.toNat_ofNat']
  rw [hbyte]
  exact (by decide : ∀ i < 26, Char.ofUInt8 (UInt8.ofNat i + 'A'.toUInt8) = letter i) _ h

theorem lettersOnto_eq (n : UInt32) (acc : List Char) :
    lettersOnto n acc = Column.lettersOnto n.toNat acc := by
  fun_induction lettersOnto n acc with
  | case1 acc => exact (lettersOnto_zero acc).symm
  | case2 n acc hn ih =>
    obtain ⟨hpos, hless⟩ := toNat_sub_one hn
    have hremainder : ((n - 1) % 26).toNat = (n.toNat - 1) % 26 := by
      rw [UInt32.toNat_mod, hless]
      rfl
    have hlt : ((n - 1) % 26).toNat < 26 := by
      rw [hremainder]
      exact Nat.mod_lt _ (by decide)
    rw [ih, lettersOnto_pos hpos, toNat_quotient hn, ofUInt8_eq_letter hlt, hremainder]

theorem letters_eq (column : UInt16) : letters column = Column.letters column := by
  have hcolumn := column.toNat_lt
  rw [letters, lettersOnto_eq, UInt32.toNat_add, UInt16.toNat_toUInt32]
  show Column.lettersOnto ((column.toNat + 1) % 2 ^ 32) [] = _
  rw [Nat.mod_eq_of_lt (by omega)]
  rfl

end Words

/-- **Labels and columns.** A text names a column exactly if it is letters, one at least, that stand
for the number of the column in base 26 with the digits one to twenty-six. The column is then
written with the same letters, in upper case. Reading with checks at each step stops exactly where
32 bits do not hold the number, and what it has read is never zero; in words, the same is read and
written. Columns compare as their labels do, by length first and then by the alphabet. -/
theorem labels_exact :
    (∀ label column, read label = .ok column ↔
      label ≠ [] ∧ (∀ c ∈ label, isLetter c = true) ∧
        Nat.ofDigits 26 (label.map letterValue).reverse = column.toNat + 1) ∧
    (∀ label column, read label = .ok column → letters column = label.map capital) ∧
    (∀ label n, scan label 0 label = .ok n ↔
      (∀ c ∈ label, isLetter c = true) ∧
        Nat.ofDigits 26 (label.map letterValue).reverse = n.toNat) ∧
    (∀ label n, label ≠ [] → scan label 0 label = .ok n → 1 ≤ n) ∧
    (∀ label, Words.read label = read label) ∧
    (∀ column, Words.letters column = letters column) ∧
    ∀ a b : UInt16, a < b ↔
      (letters a).length < (letters b).length ∨
        (letters a).length = (letters b).length ∧ letters a < letters b := by
  refine ⟨fun label column => ?_, fun label column h => ?_, fun label n => ?_,
    fun label n => one_le_of_scan, Words.read_eq, Words.letters_eq, letters_lt_iff⟩
  · rw [read_eq_ok_iff, value_eq_ofDigits]
    refine (and_iff_right_of_imp ?_).symm
    rintro ⟨-, hvalue⟩ rfl
    cases hvalue
  · obtain ⟨hletters, hvalue⟩ := read_eq_ok_iff.mp h
    rw [letters, ← hvalue, lettersOnto_value hletters]
  · rw [scan_eq_ok_iff, ← value_eq_ofDigits]
    exact Iff.rfl

end Spreadsheet.Column
