import Spreadsheet.Column
import Spreadsheet.Token

/-! # Reading tokens

`Token.ofSource` cuts the source of a formula into tokens. Nothing is refused: a character that
formulas do not use is a token of its own, and a text without a closing quote ends with the source.

The source is read from the left. `lexeme` takes the tokens that begin with the next character, as
long as they can be, and `lexeme_length` says that it leaves less to read. -/

namespace Spreadsheet.Token

/-- The text up to the closing quote, and what follows the quote. -/
def unquote : List Char → List Char × List Char
  | [] => ([], [])
  | '"' :: '"' :: rest => ('"' :: (unquote rest).1, (unquote rest).2)
  | '"' :: rest => ([], rest)
  | c :: rest => (c :: (unquote rest).1, (unquote rest).2)

/-- The number at the start of a text, and what follows it. -/
def numeral (cs : List Char) : Token × List Char :=
  let (whole, places, rest) := Decimal.splitPoint cs
  (.number (Decimal.toFloat ⟨false, Numeral.value (whole ++ places), -places.length⟩), rest)

/-- The token that the character `c` begins where it is no quote, digit or letter, and what follows
it. -/
def sign (c : Char) (rest : List Char) : Token × List Char :=
  match c with
  | '+' => (.operator (.arithmetic .add), rest)
  | '-' => (.operator (.arithmetic .subtract), rest)
  | '*' => (.operator (.arithmetic .multiply), rest)
  | '/' => (.operator (.arithmetic .divide), rest)
  | '^' => (.operator (.arithmetic .power), rest)
  | '=' => (.operator (.comparison .equal), rest)
  | '<' =>
    match rest with
    | '=' :: rest => (.operator (.comparison .lessEqual), rest)
    | '>' :: rest => (.operator (.comparison .notEqual), rest)
    | rest => (.operator (.comparison .less), rest)
  | '>' =>
    match rest with
    | '=' :: rest => (.operator (.comparison .greaterEqual), rest)
    | rest => (.operator (.comparison .greater), rest)
  | '(' => (.leftParen, rest)
  | ')' => (.rightParen, rest)
  | ',' => (.comma, rest)
  | ':' => (.colon, rest)
  | c => (.unknown c, rest)

/-- The tokens that a letter begins: a name, or a column and a row if digits follow the letters. -/
def word (cs : List Char) : List Token × List Char :=
  let letters := String.ofList (cs.takeWhile Column.isLetter)
  let rest := cs.dropWhile Column.isLetter
  if rest.head?.any Numeral.isDigit then
    ([.column letters, .row (String.ofList (rest.takeWhile Numeral.isDigit))],
      rest.dropWhile Numeral.isDigit)
  else ([.name letters], rest)

/-- The tokens that a character other than a blank begins, and what follows them. -/
def lexeme (c : Char) (rest : List Char) : List Token × List Char :=
  if c = '"' then ([.text (String.ofList (unquote rest).1)], (unquote rest).2)
  else if Numeral.isDigit c || (c == '.' && rest.head?.any Numeral.isDigit) then
    ([(numeral (c :: rest)).1], (numeral (c :: rest)).2)
  else if Column.isLetter c then word (c :: rest)
  else ([(sign c rest).1], (sign c rest).2)

theorem unquote_length (cs : List Char) : (unquote cs).2.length ≤ cs.length := by
  fun_induction unquote cs <;> simp_all <;> omega

theorem dropWhile_length (p : Char → Bool) (cs : List Char) :
    (cs.dropWhile p).length ≤ cs.length :=
  (List.dropWhile_suffix p).length_le

theorem numeral_length {c : Char} {rest : List Char}
    (h : Numeral.isDigit c = true ∨ c = '.') : (numeral (c :: rest)).2.length ≤ rest.length := by
  have hd : ((c :: rest).dropWhile Numeral.isDigit).length ≤ rest.length ∨
      c = '.' ∧ (c :: rest).dropWhile Numeral.isDigit = '.' :: rest := by
    by_cases hc : Numeral.isDigit c = true
    · rw [List.dropWhile_cons, if_pos hc]; exact Or.inl (dropWhile_length _ _)
    · rcases h with h | h
      · exact absurd h hc
      · rw [List.dropWhile_cons, if_neg hc, h]; exact Or.inr ⟨rfl, rfl⟩
  simp only [numeral, Decimal.splitPoint]
  split
  · next r hr =>
    have := dropWhile_length Numeral.isDigit r
    rcases hd with hd | ⟨-, hd⟩
    · rw [hr, List.length_cons] at hd; simp only; omega
    · rw [hr, List.cons.injEq] at hd; rw [hd.2] at this; rw [hd.2]; exact this
  · next r hr =>
    rcases hd with hd | ⟨-, hd⟩
    · exact hd
    · exact absurd hd (hr rest)

theorem sign_length (c : Char) (rest : List Char) : (sign c rest).2.length ≤ rest.length := by
  unfold sign
  split <;> try exact Nat.le_refl _
  all_goals split <;> simp

theorem word_length {c : Char} {rest : List Char} (h : Column.isLetter c = true) :
    (word (c :: rest)).2.length ≤ rest.length := by
  have h1 := dropWhile_length Column.isLetter rest
  have h2 := dropWhile_length Numeral.isDigit (rest.dropWhile Column.isLetter)
  simp only [word, List.dropWhile_cons, if_pos h]
  split
  · exact Nat.le_trans h2 h1
  · exact h1

/-- **Reading a lexeme leaves less to read.** -/
theorem lexeme_length (c : Char) (rest : List Char) : (lexeme c rest).2.length ≤ rest.length := by
  unfold lexeme
  split
  · exact unquote_length rest
  · split
    · next h =>
      refine numeral_length ?_
      simp only [Bool.or_eq_true, Bool.and_eq_true, beq_iff_eq] at h
      exact h.imp id And.left
    · split
      · next h => exact word_length h
      · exact sign_length c rest

/-- The tokens that a character begins, none if it is a blank, and what follows them. -/
def next (c : Char) (rest : List Char) : List Token × List Char :=
  if Text.isBlank c then ([], rest) else lexeme c rest

/-- Each step leaves less to read. -/
theorem next_length (c : Char) (rest : List Char) : (next c rest).2.length ≤ rest.length := by
  unfold next
  split
  · exact Nat.le_refl _
  · exact lexeme_length c rest

/-- The tokens of a text, behind those already found. -/
def scan (cs : List Char) (found : Array Token) : Array Token :=
  match cs with
  | [] => found
  | c :: rest => scan (next c rest).2 (found ++ (next c rest).1)
termination_by cs.length
decreasing_by exact Nat.lt_succ_of_le (next_length c rest)

def ofText (cs : List Char) : List Token := (scan cs #[]).toList

/-- The source of a formula without the blanks around it and without its equals sign. -/
def body (cs : List Char) : List Char :=
  match Text.trim cs with
  | '=' :: rest => rest
  | cs => cs

/-- **The tokens of a formula.** -/
def ofSource (source : String) : List Token := ofText (body source.toList)

/-- What is already found stays in front. -/
theorem toList_scan (cs : List Char) (found : Array Token) :
    (scan cs found).toList = found.toList ++ ofText cs := by
  unfold ofText
  induction h : cs.length using Nat.strongRecOn generalizing cs found with
  | ind n ih =>
    subst h
    cases cs with
    | nil => simp [scan]
    | cons c rest =>
      have hl : (next c rest).2.length < (c :: rest).length :=
        Nat.lt_succ_of_le (next_length c rest)
      rw [scan, scan, ih _ hl _ _ rfl, ih _ hl _ (#[] ++ (next c rest).1) rfl]
      simp

@[simp] theorem ofText_nil : ofText [] = [] := by simp [ofText, scan]

theorem ofText_next (c : Char) (rest : List Char) :
    ofText (c :: rest) = (next c rest).1 ++ ofText (next c rest).2 := by
  rw [ofText, scan, toList_scan]
  simp

/-- A blank separates tokens. -/
theorem ofText_blank {c : Char} (h : Text.isBlank c = true) (rest : List Char) :
    ofText (c :: rest) = ofText rest := by
  rw [ofText_next, next, if_pos h, List.nil_append]

/-- Any other character begins a lexeme. -/
theorem ofText_cons {c : Char} (h : Text.isBlank c = false) (rest : List Char) :
    ofText (c :: rest) = (lexeme c rest).1 ++ ofText (lexeme c rest).2 := by
  rw [ofText_next, next, if_neg (by simp [h])]

end Spreadsheet.Token
