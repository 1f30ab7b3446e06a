import Spreadsheet.Proofs.Formula.Words
import Spreadsheet.Proofs.Number.Bits

/-! # One token at a time

`Token.Reader` takes one token from a text at each step. A column and its row are two tokens, so it
holds whether the digits in front are the row of letters that have just been read; and it tries the
text of a number, which might not be one, and would take it for a character without meaning.

* `Reader.Takes`: all that a step can do at a character other than a blank. The text of a number is
  always one (`Reader.number_numeral`).
* `Reader.tokens_eq`: the tokens are the same as those that are read in whole lexemes.
* `Reader.paired_tokens`: each column has its row right behind it, and there are no other rows. The
  induction is on the steps, and what the reading holds between two of them carries it. -/

namespace Spreadsheet

namespace Token

variable {c d : Char} {cs ds rest whole places : List Char} {t : Token} {x : Float}

/-! ### Signs -/

/-- An operator, a parenthesis, a comma or a colon. -/
def isSign : Token → Bool
  | operator _ | leftParen | rightParen | comma | colon => true
  | _ => false

/-- A character is a sign, or begins one, or it has no meaning. -/
theorem sign_cases (c : Char) (rest : List Char) : (sign c rest).1.isSign = true ∨
    c ∉ ['+', '-', '*', '/', '^', '=', '<', '>', '(', ')', ',', ':'] ∧
      sign c rest = (.unknown c, rest) := by
  unfold sign
  split
  case h_13 =>
    refine Or.inr ⟨?_, rfl⟩
    simp only [List.mem_cons, List.not_mem_nil, or_false, not_or]
    exact ⟨‹_›, ‹_›, ‹_›, ‹_›, ‹_›, ‹_›, ‹_›, ‹_›, ‹_›, ‹_›, ‹_›, ‹_›⟩
  case h_7 | h_8 => split <;> exact Or.inl rfl
  all_goals exact Or.inl rfl

end Token

/-! ### Numbers -/

namespace Decimal

open Numeral

variable {cs whole places : List Char}

theorem readSign_of_head (h : ∀ c ∈ cs.head?, isDigit c = true ∨ c = '.') :
    readSign cs = (false, cs) := by
  unfold readSign
  split
  · exact absurd (h '-' rfl) (by decide)
  · exact absurd (h '+' rfl) (by decide)
  · rfl

/-- **Digits with a point among them write a number**, if there is at least one digit. -/
theorem read?_point (hw : ∀ c ∈ whole, isDigit c = true) (hp : ∀ c ∈ places, isDigit c = true)
    (hne : ¬(whole = [] ∧ places = [])) : read? (whole ++ '.' :: places) =
      some ⟨false, value (whole ++ places), -places.length⟩ := by
  have hhead : ∀ c ∈ (whole ++ '.' :: places).head?, isDigit c = true ∨ c = '.' := by
    cases whole with
    | nil =>
      rintro c ⟨⟩
      exact Or.inr rfl
    | cons d ds =>
      rintro c ⟨⟩
      exact Or.inl (hw d List.mem_cons_self)
  have hsplit := @splitPoint_point whole places [] hw hp (by simp)
  rw [List.append_nil] at hsplit
  simp only [read?, readSign_of_head hhead, hsplit, if_neg hne, readExponent?, Option.map_some,
    Int.zero_sub]

theorem read?_whole (hw : ∀ c ∈ whole, isDigit c = true) (hne : whole ≠ []) :
    read? whole = some ⟨false, value whole, 0⟩ := by
  have hhead : ∀ c ∈ whole.head?, isDigit c = true ∨ c = '.' := fun c hc =>
    Or.inl (hw c (List.mem_of_head? hc))
  have hsplit := @splitPoint_whole whole [] hw (by simp)
  rw [List.append_nil] at hsplit
  simp only [read?, readSign_of_head hhead, hsplit, hne, false_and, if_false, readExponent?,
    Option.map_some, List.append_nil]
  rfl

end Decimal

namespace Token

/-! ### Steps -/

/-- A reading that takes one token after the other. -/
structure Reader where
  /-- What is still to be read. -/
  rest : List Char
  /-- Whether the digits in front are the row of letters that have just been read. -/
  atRow : Bool

namespace Reader

variable {c : Char} {cs rest : List Char} {t : Token} {r r' : Reader}

/-- The text of the number in front, digits with at most one point, and what follows it. -/
def numeral (cs : List Char) : List Char × List Char :=
  match cs.dropWhile Numeral.isDigit with
  | '.' :: rest =>
    (cs.takeWhile Numeral.isDigit ++ '.' :: rest.takeWhile Numeral.isDigit,
      rest.dropWhile Numeral.isDigit)
  | rest => (cs.takeWhile Numeral.isDigit, rest)

/-- The token of a text that should be a number. -/
def number (text : List Char) : Token :=
  match Decimal.read? text with
  | some d => .number d.toFloat
  | none => .unknown '.'

/-- The token that begins with the character `c`, which is no blank, and the reading behind it. -/
def lexeme (c : Char) (rest : List Char) : Token × Reader :=
  if c = '"' then (.text (String.ofList (unquote rest).1), ⟨(unquote rest).2, false⟩)
  else if Numeral.isDigit c || (c == '.' && rest.head?.any Numeral.isDigit) then
    (number (numeral (c :: rest)).1, ⟨(numeral (c :: rest)).2, false⟩)
  else if Column.isLetter c then
    let letters := String.ofList ((c :: rest).takeWhile Column.isLetter)
    let behind := (c :: rest).dropWhile Column.isLetter
    if behind.head?.any Numeral.isDigit then (.column letters, ⟨behind, true⟩)
    else (.name letters, ⟨behind, false⟩)
  else ((sign c rest).1, ⟨(sign c rest).2, false⟩)

/-- **The next token**, and the reading behind it; none at the end of the text. -/
def next? (r : Reader) : Option (Token × Reader) :=
  if r.atRow then
    some (.row (String.ofList (r.rest.takeWhile Numeral.isDigit)),
      ⟨r.rest.dropWhile Numeral.isDigit, false⟩)
  else
    match Text.trimStart r.rest with
    | [] => none
    | c :: rest => some (lexeme c rest)

/-- The tokens that take one step at the character `c`. -/
inductive Lone (c : Char) (rest : List Char) : Token → Prop
  | text (s : String) : Lone c rest (.text s)
  | number (d : Decimal) (hd : d.negative = false) : Lone c rest (.number d.toFloat)
  | name (letters : String) : Lone c rest (.name letters)
  | sign {t : Token} (ht : t.isSign = true) : Lone c rest t
  | unknown (hc : Text.isBlank c = false → Foreign c)
    (hpoint : ¬(c = '.' ∧ rest.head?.any Numeral.isDigit = true)) : Lone c rest (.unknown c)

/-- **All that a step can do** at a character other than a blank, and what the reading of a whole
lexeme makes of it. -/
inductive Takes (c : Char) (rest : List Char) : Token → Reader → Prop
  | lone {t : Token} {cs : List Char} (ht : Lone c rest t)
    (h : Token.lexeme c rest = ([t], cs)) : Takes c rest t ⟨cs, false⟩
  | column {cs : List Char} (letters : String)
    (h : Token.lexeme c rest =
      ([.column letters, .row (String.ofList (cs.takeWhile Numeral.isDigit))],
        cs.dropWhile Numeral.isDigit))
    (hlength : cs.length ≤ rest.length) : Takes c rest (.column letters) ⟨cs, true⟩

theorem Lone.paired_cons (h : Lone c rest t) (ts : List Token) : paired (t :: ts) = paired ts := by
  cases h with
  | sign ht => cases t <;> first | rfl | cases ht
  | _ => rfl

/-- **The text of a number is a number**: digits, or a point and digits, are in front. -/
theorem number_numeral
    (h : (Numeral.isDigit c || (c == '.' && rest.head?.any Numeral.isDigit)) = true) :
    ∃ d : Decimal, d.negative = false ∧ number (numeral (c :: rest)).1 = .number d.toFloat ∧
      Token.numeral (c :: rest) = (.number d.toFloat, (numeral (c :: rest)).2) := by
  have hall : ∀ cs : List Char, ∀ c ∈ cs.takeWhile Numeral.isDigit, Numeral.isDigit c = true :=
    fun cs => List.all_eq_true.mp List.all_takeWhile
  have hwhole : Numeral.isDigit c = true → (c :: rest).takeWhile Numeral.isDigit ≠ [] :=
    fun hc => @takeWhile_ne_nil (c :: rest) _ hc
  simp only [Bool.or_eq_true, Bool.and_eq_true, beq_iff_eq] at h
  unfold numeral Token.numeral Decimal.splitPoint
  generalize hbehind : (c :: rest).dropWhile Numeral.isDigit = behind
  split
  · next places =>
    have hne : ¬((c :: rest).takeWhile Numeral.isDigit = [] ∧
        places.takeWhile Numeral.isDigit = []) := by
      rintro ⟨hnil, hplaces⟩
      rcases h with hdigit | ⟨rfl, hpoint⟩
      · exact hwhole hdigit hnil
      · obtain rfl : rest = places := (List.cons.inj hbehind).2
        exact takeWhile_ne_nil hpoint hplaces
    refine ⟨⟨false, Numeral.value ((c :: rest).takeWhile Numeral.isDigit ++
      places.takeWhile Numeral.isDigit), -(places.takeWhile Numeral.isDigit).length⟩, rfl, ?_, ?_⟩
    · simp only [number, Decimal.read?_point (hall _) (hall _) hne]
    · rfl
  · next hno =>
    have hne : (c :: rest).takeWhile Numeral.isDigit ≠ [] := by
      rcases h with hdigit | ⟨rfl, -⟩
      · exact hwhole hdigit
      · exact absurd hbehind.symm (hno rest)
    refine ⟨⟨false, Numeral.value ((c :: rest).takeWhile Numeral.isDigit), 0⟩, rfl, ?_, ?_⟩
    · simp only [number, Decimal.read?_whole (hall _) hne]
    · simp only [List.append_nil]
      rfl

/-- Where no text, number or letters begin, there is a sign or a character without meaning. -/
theorem lone_sign (hquote : c ≠ '"')
    (hnumber : ¬(Numeral.isDigit c || (c == '.' && rest.head?.any Numeral.isDigit)) = true)
    (hletter : ¬Column.isLetter c = true) : Lone c rest (sign c rest).1 := by
  rcases sign_cases c rest with hsign | ⟨hsign, hunknown⟩
  · exact .sign hsign
  · rw [hunknown]
    simp only [Bool.or_eq_true, Bool.and_eq_true, beq_iff_eq, not_or] at hnumber
    refine .unknown (fun hblank => ?_) hnumber.2
    exact ⟨hblank, by simpa using hletter, by simpa using hnumber.1,
      fun hmem => (List.mem_cons.mp hmem).elim hquote hsign⟩

theorem takes_lexeme (c : Char) (rest : List Char) :
    Takes c rest (lexeme c rest).1 (lexeme c rest).2 := by
  unfold lexeme
  split
  · next hquote => exact .lone (.text _) (by rw [Token.lexeme, if_pos hquote])
  next hquote =>
  split
  · next hnumber =>
    obtain ⟨d, hd, hnumeral, hlexeme⟩ := number_numeral hnumber
    rw [hnumeral]
    exact .lone (.number d hd) (by rw [Token.lexeme, if_neg hquote, if_pos hnumber, hlexeme])
  next hnumber =>
  split
  · next hletter =>
    have hlexeme : Token.lexeme c rest = word (c :: rest) := by
      rw [Token.lexeme, if_neg hquote, if_neg hnumber, if_pos hletter]
    dsimp only
    split
    · next hdigit =>
      refine .column _ ?_ ?_
      · simp only [hlexeme, word, hdigit, if_true]
      · rw [List.dropWhile_cons_of_pos hletter]
        exact dropWhile_length _ _
    · next hdigit =>
      refine .lone (.name _) ?_
      simp only [hlexeme, word, hdigit, Bool.false_eq_true, if_false]
  · next hletter =>
    have hlexeme : Token.lexeme c rest = ([(sign c rest).1], (sign c rest).2) := by
      rw [Token.lexeme, if_neg hquote, if_neg hnumber, if_neg hletter]
    exact .lone (lone_sign hquote hnumber hletter) hlexeme

/-- A character without meaning is a token, if it does not begin a number. -/
theorem lexeme_foreign (h : Foreign c)
    (hpoint : ¬(c = '.' ∧ rest.head?.any Numeral.isDigit = true)) :
    lexeme c rest = (.unknown c, ⟨rest, false⟩) := by
  have hsign := sign_foreign h rest
  obtain ⟨-, hletter, hdigit, hmem⟩ := h
  have hquote : c ≠ '"' := by
    rintro rfl
    exact hmem (by decide)
  have hnumber : ¬(Numeral.isDigit c || (c == '.' && rest.head?.any Numeral.isDigit)) = true := by
    simpa only [hdigit, Bool.false_or, Bool.and_eq_true, beq_iff_eq] using hpoint
  rw [lexeme, if_neg hquote, if_neg hnumber, if_neg (by simp [hletter]), hsign]

example : lexeme 'b' "7 c".toList = (.column "b", ⟨"7 c".toList, true⟩) := by rfl

/-! ### All steps -/

/-- How much is left to do. A row makes a step of its own, and need not have digits. -/
def size (r : Reader) : Nat := 2 * r.rest.length + r.atRow.toNat

theorem Takes.size_lt (h : Takes c rest t r) : r.size < 2 * (rest.length + 1) := by
  cases h with
  | @lone _ cs ht h =>
    have hlength : cs.length ≤ rest.length := by
      have := lexeme_length c rest
      rwa [h] at this
    simp only [size, Bool.toNat_false]
    omega
  | column letters _ hlength =>
    simp only [size, Bool.toNat_true]
    omega

/-- **Each step leaves less to do.** -/
theorem size_lt (h : r.next? = some (t, r')) : r'.size < r.size := by
  unfold next? at h
  split at h
  · next hrow =>
    cases h
    have := dropWhile_length Numeral.isDigit r.rest
    simp only [size, hrow, Bool.toNat_true, Bool.toNat_false]
    omega
  · split at h
    · cases h
    · next c rest htrim =>
      have hlength : (c :: rest).length ≤ r.rest.length := by
        rw [← htrim]
        exact dropWhile_length _ _
      have htakes := takes_lexeme c rest
      rw [Option.some.inj h] at htakes
      have := htakes.size_lt
      rw [List.length_cons] at hlength
      simp only [size] at this ⊢
      omega

/-- **The steps of a reading**, and the token that each of them takes. -/
def trace (r : Reader) : List (Reader × Token) :=
  match _h : r.next? with
  | none => []
  | some (t, r') => (r, t) :: r'.trace
termination_by r.size
decreasing_by exact size_lt ‹_›

/-- The tokens that a reading takes. -/
def tokens (r : Reader) : List Token := r.trace.map Prod.snd

theorem trace_none (h : r.next? = none) : r.trace = [] := by
  rw [trace]
  split
  · rfl
  · next heq =>
    rw [h] at heq
    cases heq

theorem trace_some (h : r.next? = some (t, r')) : r.trace = (r, t) :: r'.trace := by
  rw [trace]
  split
  · next heq =>
    rw [h] at heq
    cases heq
  · next heq =>
    rw [h] at heq
    cases heq
    rfl

theorem tokens_none (h : r.next? = none) : r.tokens = [] := by rw [tokens, trace_none h]; rfl

theorem tokens_some (h : r.next? = some (t, r')) : r.tokens = t :: r'.tokens := by
  rw [tokens, trace_some h]
  rfl

/-- What is in a trace is a step. -/
theorem next?_of_mem_trace {q : Reader} (h : (q, t) ∈ r.trace) : ∃ q', q.next? = some (t, q') := by
  fun_induction trace r with
  | case1 r hnone => cases h
  | case2 r u r' hsome ih =>
    rcases List.mem_cons.mp h with h | h
    · cases h
      exact ⟨r', hsome⟩
    · exact ih h

/-- What is in a trace is a row, where one is to come, or a lexeme begins with it at the first
character that is no blank. -/
theorem lexeme_of_mem_trace {q : Reader} (h : (q, t) ∈ r.trace) :
    (q.atRow = true ∧ t.isRow = true) ∨ (q.atRow = false ∧ ∃ c rest q',
      Text.trimStart q.rest = c :: rest ∧ Text.isBlank c = false ∧ lexeme c rest = (t, q')) := by
  obtain ⟨q', hq⟩ := next?_of_mem_trace h
  obtain ⟨cs, atRow⟩ := q
  cases atRow with
  | true =>
    cases hq
    exact Or.inl ⟨rfl, rfl⟩
  | false =>
    simp only [next?, Bool.false_eq_true, if_false] at hq
    split at hq
    · cases hq
    · next c rest htrim =>
      exact Or.inr ⟨rfl, c, rest, q', htrim, Text.trimStart_head htrim, Option.some.inj hq⟩

/-! ### The tokens -/

theorem next?_row (cs : List Char) : next? ⟨cs, true⟩ =
    some (.row (String.ofList (cs.takeWhile Numeral.isDigit)),
      ⟨cs.dropWhile Numeral.isDigit, false⟩) := rfl

/-- The end of the text, or a step at its first character that is no blank. -/
theorem next?_cases (cs : List Char) :
    (next? ⟨cs, false⟩ = none ∧ ofText cs = []) ∨
    ∃ c rest t r, next? ⟨cs, false⟩ = some (t, r) ∧ Text.trimStart cs = c :: rest ∧
      Text.isBlank c = false ∧ Takes c rest t r ∧
      ofText cs = (Token.lexeme c rest).1 ++ ofText (Token.lexeme c rest).2 := by
  have hblanks : ∀ c ∈ cs.takeWhile Text.isBlank, Text.isBlank c = true :=
    List.all_eq_true.mp List.all_takeWhile
  have htext : ofText cs = ofText (Text.trimStart cs) := by
    conv_lhs => rw [← @List.takeWhile_append_dropWhile _ Text.isBlank cs, ofText_blanks hblanks]
    rfl
  simp only [next?, Bool.false_eq_true, if_false]
  cases htrim : Text.trimStart cs with
  | nil => exact Or.inl ⟨rfl, by rw [htext, htrim, ofText_nil]⟩
  | cons c rest =>
    have hc := Text.trimStart_head htrim
    exact Or.inr ⟨c, rest, _, _, rfl, rfl, hc, takes_lexeme c rest,
      by rw [htext, htrim, ofText_cons hc]⟩

/-- **Token by token the same is read as in whole lexemes.** A column and its row take a step
each. -/
theorem tokens_eq (cs : List Char) : tokens ⟨cs, false⟩ = ofText cs := by
  induction hn : size ⟨cs, false⟩ using Nat.strongRecOn generalizing cs with
  | ind n ih =>
    subst hn
    rcases next?_cases cs with ⟨hnext, htext⟩ | ⟨c, rest, t, r, hnext, -, -, htakes, htext⟩
    · rw [tokens_none hnext, htext]
    · have hless := size_lt hnext
      rw [tokens_some hnext, htext]
      cases htakes with
      | lone ht h =>
        rw [h, ih _ hless _ rfl]
        rfl
      | @column cs letters h =>
        -- the row takes the next step, and what is left is read as before
        have hrow := next?_row cs
        rw [h, tokens_some hrow, ih _ (Nat.lt_trans (size_lt hrow) hless) _ rfl]
        rfl

/-- **Each column has its row right behind it, and there are no other rows.** -/
theorem paired_tokens (r : Reader) :
    (r.atRow = false → paired r.tokens = true) ∧
      (r.atRow = true → ∀ letters, paired (column letters :: r.tokens) = true) := by
  induction hn : r.size using Nat.strongRecOn generalizing r with
  | ind n ih =>
    subst hn
    obtain ⟨cs, atRow⟩ := r
    cases atRow with
    | true =>
      refine ⟨nofun, fun _ letters => ?_⟩
      rw [tokens_some (next?_row cs)]
      exact (ih _ (size_lt (next?_row cs)) _ rfl).1 rfl
    | false =>
      refine ⟨fun _ => ?_, nofun⟩
      rcases next?_cases cs with ⟨hnext, -⟩ | ⟨c, rest, t, r, hnext, -, -, htakes, -⟩
      · rw [tokens_none hnext]
        rfl
      · have hrest := ih _ (size_lt hnext) _ rfl
        rw [tokens_some hnext]
        cases htakes with
        | lone ht h =>
          rw [ht.paired_cons]
          exact hrest.1 rfl
        | column letters h => exact hrest.2 rfl letters

end Reader

end Token

end Spreadsheet
