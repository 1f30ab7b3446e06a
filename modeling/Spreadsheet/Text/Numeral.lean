/-! # Decimal numerals

The decimal digits of a natural number and the number that digits stand for. Reading gives back
what was written (`value_digits`), and leading zeros do not count
(`value_replicate_zero_append`). -/

namespace Spreadsheet.Numeral

/-- The characters `0` to `9`. -/
def isDigit (c : Char) : Bool := '0' ≤ c && c ≤ '9'

/-- The number that a digit stands for. -/
def digitValue (c : Char) : Nat := c.toNat - '0'.toNat

/-- The digit of a number below ten. -/
def digitChar (n : Nat) : Char := Char.ofNat ('0'.toNat + n)

/-- The number that a list of digits stands for, the most significant first. -/
def value (cs : List Char) : Nat := cs.foldl (fun n c => 10 * n + digitValue c) 0

/-- The digits of a number behind the digits `acc`; those of zero are none. -/
def digitsOnto (n : Nat) (acc : List Char) : List Char :=
  if n = 0 then acc else digitsOnto (n / 10) (digitChar (n % 10) :: acc)
termination_by n
decreasing_by omega

def digits (n : Nat) : List Char := if n = 0 then ['0'] else digitsOnto n []

def text (n : Nat) : String := String.ofList (digits n)

theorem digitsOnto_zero (acc : List Char) : digitsOnto 0 acc = acc := by
  rw [digitsOnto]; simp

theorem digitsOnto_pos {n : Nat} (h : n ≠ 0) (acc : List Char) :
    digitsOnto n acc = digitsOnto (n / 10) (digitChar (n % 10) :: acc) := by
  rw [digitsOnto]; simp [h]

/-- What is already written stays behind the digits. -/
theorem digitsOnto_eq (n : Nat) (acc : List Char) : digitsOnto n acc = digitsOnto n [] ++ acc := by
  induction n using Nat.strongRecOn generalizing acc with
  | ind n ih =>
    by_cases h : n = 0
    · simp [h, digitsOnto_zero]
    · rw [digitsOnto_pos h, digitsOnto_pos h, ih (n / 10) (by omega), ih (n / 10) (by omega) [_]]
      simp

theorem digits_lt {n : Nat} (h : n < 10) : digits n = [digitChar n] := by
  by_cases h0 : n = 0
  · subst h0; decide
  · rw [digits, if_neg h0, digitsOnto_pos h0, show n / 10 = 0 by omega, digitsOnto_zero,
      Nat.mod_eq_of_lt h]

/-- The digits of a number of at least two digits: those of its tenth part, then the last one. -/
theorem digits_ge {n : Nat} (h : 10 ≤ n) : digits n = digits (n / 10) ++ [digitChar (n % 10)] := by
  rw [digits, if_neg (by omega), digitsOnto_pos (by omega), digitsOnto_eq, digits,
    if_neg (by omega)]

theorem digitChar_isDigit {n : Nat} (h : n < 10) : isDigit (digitChar n) = true := by
  match n, h with
  | 0, _ | 1, _ | 2, _ | 3, _ | 4, _ | 5, _ | 6, _ | 7, _ | 8, _ | 9, _ => decide

theorem digitValue_digitChar {n : Nat} (h : n < 10) : digitValue (digitChar n) = n := by
  match n, h with
  | 0, _ | 1, _ | 2, _ | 3, _ | 4, _ | 5, _ | 6, _ | 7, _ | 8, _ | 9, _ => decide

theorem isDigit_iff {c : Char} : isDigit c = true ↔ 48 ≤ c.toNat ∧ c.toNat ≤ 57 := by
  simp only [isDigit, Bool.and_eq_true, decide_eq_true_eq, Char.le_def, UInt32.le_iff_toNat_le]
  exact Iff.rfl

theorem digitValue_lt {c : Char} (h : isDigit c = true) : digitValue c < 10 := by
  have h' := isDigit_iff.mp h
  have h0 : '0'.toNat = 48 := rfl
  simp only [digitValue, h0]
  omega

theorem digitChar_digitValue {c : Char} (h : isDigit c = true) : digitChar (digitValue c) = c := by
  have h' := isDigit_iff.mp h
  have h0 : '0'.toNat = 48 := rfl
  have : digitChar (digitValue c) = Char.ofNat c.toNat := by
    simp only [digitChar, digitValue, h0]; congr 1; omega
  rw [this, Char.ofNat_toNat]

@[simp] theorem value_nil : value [] = 0 := rfl

theorem value_append_singleton (cs : List Char) (c : Char) :
    value (cs ++ [c]) = 10 * value cs + digitValue c := by
  simp [value]

theorem foldl_value (cs : List Char) (n : Nat) :
    cs.foldl (fun n c => 10 * n + digitValue c) n = n * Nat.pow 10 cs.length + value cs := by
  induction cs generalizing n with
  | nil => simp
  | cons c cs ih =>
    have h := ih (10 * 0 + digitValue c)
    simp only [value, List.foldl_cons, List.length_cons] at *
    rw [ih, h, show Nat.pow 10 (cs.length + 1) = Nat.pow 10 cs.length * 10 from rfl]
    simp only [Nat.mul_zero, Nat.zero_add, Nat.add_mul, Nat.add_assoc]
    rw [Nat.mul_comm 10 n, Nat.mul_assoc, Nat.mul_comm 10]

/-- Two runs of digits written one after the other. -/
theorem value_append (cs ds : List Char) :
    value (cs ++ ds) = value cs * Nat.pow 10 ds.length + value ds := by
  rw [value, List.foldl_append, foldl_value]; rfl

theorem value_cons (c : Char) (cs : List Char) :
    value (c :: cs) = digitValue c * Nat.pow 10 cs.length + value cs := by
  have h := value_append [c] cs
  simpa [value] using h

/-- **Reading gives back what was written.** -/
theorem value_digits (n : Nat) : value (digits n) = n := by
  induction n using Nat.strongRecOn with
  | ind n ih =>
    by_cases h : n < 10
    · simp [digits_lt h, value, digitValue_digitChar h]
    · rw [digits_ge (by omega), value_append_singleton, ih _ (by omega),
        digitValue_digitChar (Nat.mod_lt _ (by decide))]
      omega

theorem digits_isDigit (n : Nat) : ∀ c ∈ digits n, isDigit c = true := by
  induction n using Nat.strongRecOn with
  | ind n ih =>
    by_cases h : n < 10
    · simp [digits_lt h, digitChar_isDigit h]
    · rw [digits_ge (by omega)]
      intro c hc
      rcases List.mem_append.mp hc with hc | hc
      · exact ih _ (by omega) c hc
      · rw [List.mem_singleton.mp hc]
        exact digitChar_isDigit (Nat.mod_lt _ (by decide))

theorem digits_ne_nil (n : Nat) : digits n ≠ [] := by
  by_cases h : n < 10
  · simp [digits_lt h]
  · simp [digits_ge (Nat.le_of_not_lt h)]

/-- Leading zeros do not count. -/
theorem value_replicate_zero_append (k : Nat) (cs : List Char) :
    value (List.replicate k '0' ++ cs) = value cs := by
  induction k with
  | zero => simp
  | succ k ih =>
    rw [List.replicate_succ, List.cons_append, value_cons, ih,
      show digitValue '0' = 0 by decide]
    simp

theorem toList_text (n : Nat) : (text n).toList = digits n := by simp [text]

end Spreadsheet.Numeral
