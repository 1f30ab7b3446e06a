import Spreadsheet.Proofs.Number.Printed
import Spreadsheet.Proofs.Sheet.Label
import Spreadsheet.Token.Lexer

/-! # Reading what is written

Tokens that are written one after the other with blanks between them are read back.

A token ends where a blank or the end of the text follows, so its spelling is read as that token
whatever is written behind the blank (`lexeme_spelling`). The exceptions are columns and rows, which
stand side by side and are read in one step (`lexeme_reference`).

* `unquote_doubleQuotes`: a text between quotes is read as the text.
* `ofSource_written`: the source that writes a list of tokens is read as the list. Only a negative
  zero is changed, as zero is written without a sign. -/

namespace Spreadsheet

namespace Token

open Text

variable {c : Char} {cs ds rest : List Char} {t : Token} {x : Float}

/-! ### Characters -/

/-- A character that formulas do not use. -/
def Foreign (c : Char) : Prop :=
  isBlank c = false ∧ Column.isLetter c = false ∧ Numeral.isDigit c = false ∧
    c ∉ ['"', '+', '-', '*', '/', '^', '=', '<', '>', '(', ')', ',', ':']

/-- A blank comes before or behind all characters that formulas use. -/
theorem toNat_of_isBlank (h : isBlank c = true) : c.toNat ≤ 0x20 ∨ 0x85 ≤ c.toNat := by
  simp only [isBlank, blankRuns, List.any_cons, List.any_nil, Bool.or_false, Bool.or_eq_true,
    Bool.and_eq_true, decide_eq_true_eq] at h
  omega

theorem isBlank_of_isDigit (h : Numeral.isDigit c = true) : isBlank c = false := by
  have hc := Numeral.isDigit_iff.mp h
  by_contra hblank
  have := toNat_of_isBlank (by simpa using hblank)
  omega

theorem isBlank_of_isLetter (h : Column.isLetter c = true) : isBlank c = false := by
  have hc := Column.isLetter_iff.mp h
  by_contra hblank
  have := toNat_of_isBlank (by simpa using hblank)
  omega

theorem isDigit_of_isLetter (h : Column.isLetter c = true) : Numeral.isDigit c = false := by
  have hc := Column.isLetter_iff.mp h
  rw [Bool.eq_false_iff, ne_eq, Numeral.isDigit_iff]
  omega

theorem isLetter_of_isDigit (h : Numeral.isDigit c = true) : Column.isLetter c = false := by
  rw [Bool.eq_false_iff]
  intro hl
  rw [isDigit_of_isLetter hl] at h
  cases h

/-- The text is empty or begins with a blank. -/
def Ends (rest : List Char) : Prop := ∀ c ∈ rest.head?, isBlank c = true

theorem Ends.head_ne (h : Ends rest) (hc : isBlank c = false) : rest.head? ≠ some c := by
  intro hrest
  rw [h c hrest] at hc
  cases hc

theorem Ends.not_isDigit (h : Ends rest) : ∀ c ∈ rest.head?, Numeral.isDigit c = false := by
  intro c hc
  by_contra hd
  exact h.head_ne (isBlank_of_isDigit (by simpa using hd)) hc

theorem Ends.not_isLetter (h : Ends rest) : ∀ c ∈ rest.head?, Column.isLetter c = false := by
  intro c hc
  by_contra hl
  exact h.head_ne (isBlank_of_isLetter (by simpa using hl)) hc

theorem Ends.any_isDigit (h : Ends rest) : rest.head?.any Numeral.isDigit = false := by
  cases hc : rest.head? with
  | none => rfl
  | some c => exact h.not_isDigit c hc

/-! ### Single tokens -/

/-- The token as it is read: zero has no sign. -/
def unsigned : Token → Token
  | number x => number (if x == 0 then 0 else x)
  | t => t

/-- What formulas can write as the token: numbers are finite and have no minus, a name or a column
is a run of letters, and a row is a run of digits. -/
def Writable : Token → Prop
  | number x => x.isFinite = true ∧ 0 ≤ x
  | name letters | column letters =>
    letters.toList ≠ [] ∧ ∀ c ∈ letters.toList, Column.isLetter c = true
  | row digits => digits.toList ≠ [] ∧ ∀ c ∈ digits.toList, Numeral.isDigit c = true
  | unknown c => Foreign c
  | _ => True

instance : DecidablePred Foreign := fun _ => inferInstanceAs (Decidable (_ ∧ _ ∧ _ ∧ _))

instance : DecidablePred Writable
  | number _ => inferInstanceAs (Decidable (_ ∧ _))
  -- the characters of the text are looked through, and not all characters
  | name _ | column _ | row _ => @instDecidableAnd _ _ _ (List.decidableBAll _ _)
  | unknown c => inferInstanceAs (Decidable (Foreign c))
  | text _ | operator _ | leftParen | rightParen | comma | colon => .isTrue trivial

def isColumn : Token → Bool
  | column _ => true
  | _ => false

def isRow : Token → Bool
  | row _ => true
  | _ => false

/-- **A text between quotes is read as the text**, if no other quote follows. -/
theorem unquote_doubleQuotes (h : rest.head? ≠ some '"') :
    ∀ cs, unquote (doubleQuotes cs ++ '"' :: rest) = (cs, rest)
  | [] => by
    rw [doubleQuotes, List.nil_append, unquote]
    rintro r rfl
    exact h rfl
  | c :: cs => by
    have ih := unquote_doubleQuotes h cs
    by_cases hc : c = '"'
    · rw [doubleQuotes, if_pos hc, List.cons_append, List.cons_append, unquote, ih, hc]
    · rw [doubleQuotes, if_neg hc, List.cons_append, unquote, ih]
      · exact fun r hr => absurd hr hc
      · exact hc

theorem numeral_shown (hx : (number x).Writable) (hrest : Ends rest) : ∃ c cs,
    (Number.shown x).toList = c :: cs ∧ Numeral.isDigit c = true ∧
      numeral (c :: (cs ++ rest)) = ((number x).unsigned, rest) := by
  obtain ⟨k, e, hshown, hread⟩ := Number.exists_shown hx.1 hx.2
  obtain ⟨c, cs, hcs, hdigit⟩ := Decimal.head?_plainSize k e
  obtain ⟨whole, places, hsplit, -, hvalue⟩ := Decimal.splitPoint_plainSize false k e
    fun c hc => ⟨hrest.not_isDigit c hc, fun hpoint => hrest.head_ne (by decide) (hpoint ▸ hc)⟩
  refine ⟨c, cs, hshown.trans hcs, hdigit, ?_⟩
  rw [hcs, List.cons_append] at hsplit
  simp only [numeral, hsplit, hvalue, hread]
  rfl

theorem sign_foreign (h : Foreign c) (rest : List Char) : sign c rest = (unknown c, rest) := by
  have hc := h.2.2.2
  unfold sign
  split <;> first | rfl | exact absurd (by decide) hc

theorem sign_operator (o : Operator) (hrest : Ends rest) : ∃ c cs,
    o.symbol.toList = c :: cs ∧ c ∈ ['+', '-', '*', '/', '^', '=', '<', '>'] ∧
      sign c (cs ++ rest) = (operator o, rest) := by
  have heq : rest.head? ≠ some '=' := hrest.head_ne (by decide)
  have hgt : rest.head? ≠ some '>' := hrest.head_ne (by decide)
  have hless : sign '<' rest = (operator (.comparison .less), rest) := by
    simp only [sign]
    split
    · exact absurd rfl heq
    · exact absurd rfl hgt
    · rfl
  have hgreater : sign '>' rest = (operator (.comparison .greater), rest) := by
    simp only [sign]
    split
    · exact absurd rfl heq
    · rfl
  cases o with
  | arithmetic o => cases o <;> exact ⟨_, _, rfl, by decide, rfl⟩
  | comparison o =>
    cases o with
    | less => exact ⟨_, _, rfl, by decide, hless⟩
    | greater => exact ⟨_, _, rfl, by decide, hgreater⟩
    | _ => exact ⟨_, _, rfl, by decide, rfl⟩

theorem lexeme_isLetter (h : Column.isLetter c = true) (rest : List Char) :
    lexeme c rest = word (c :: rest) := by
  have hquote : c ≠ '"' := by
    rintro rfl
    cases h
  have hpoint : (c == '.') = false := by
    rw [beq_eq_false_iff_ne]
    rintro rfl
    cases h
  simp only [lexeme, if_neg hquote, isDigit_of_isLetter h, hpoint, h, Bool.false_and, Bool.or_false,
    Bool.false_eq_true, if_false, if_true]

theorem lexeme_isDigit (h : Numeral.isDigit c = true) (rest : List Char) :
    lexeme c rest = ([(numeral (c :: rest)).1], (numeral (c :: rest)).2) := by
  have hquote : c ≠ '"' := by
    rintro rfl
    cases h
  simp only [lexeme, if_neg hquote, h, Bool.true_or, if_true]

/-- **The spelling of a token is read as the token**, up to a blank. -/
theorem lexeme_spelling (ht : t.Writable) (hcolumn : t.isColumn = false) (hrow : t.isRow = false)
    (hrest : Ends rest) : ∃ c cs, t.spelling = c :: cs ∧ isBlank c = false ∧
      lexeme c (cs ++ rest) = ([t.unsigned], rest) := by
  cases t with
  | number x =>
    obtain ⟨c, cs, hcs, hdigit, hnumeral⟩ := numeral_shown ht hrest
    refine ⟨c, cs, hcs, isBlank_of_isDigit hdigit, ?_⟩
    rw [lexeme_isDigit hdigit, hnumeral]
  | text s =>
    refine ⟨'"', doubleQuotes s.toList ++ ['"'], rfl, by decide, ?_⟩
    rw [lexeme, if_pos rfl, List.append_assoc, List.singleton_append,
      unquote_doubleQuotes (hrest.head_ne (by decide)), String.ofList_toList]
    rfl
  | name letters =>
    obtain ⟨hne, hletters⟩ := ht
    obtain ⟨c, cs, hcs⟩ := List.exists_cons_of_ne_nil hne
    have hc : Column.isLetter c = true := hletters c (by simp [hcs])
    refine ⟨c, cs, hcs, isBlank_of_isLetter hc, ?_⟩
    rw [lexeme_isLetter hc, ← List.cons_append, ← hcs, word,
      List.takeWhile_append_stop hletters hrest.not_isLetter,
      List.dropWhile_append_stop hletters hrest.not_isLetter, hrest.any_isDigit,
      String.ofList_toList]
    rfl
  | column letters => cases hcolumn
  | row digits => cases hrow
  | operator o =>
    obtain ⟨c, cs, hcs, hc, hsign⟩ := sign_operator o hrest
    have hsymbol : isBlank c = false ∧ lexeme c (cs ++ rest) =
        ([(sign c (cs ++ rest)).1], (sign c (cs ++ rest)).2) := by
      simp only [List.mem_cons, List.not_mem_nil, or_false] at hc
      rcases hc with rfl | rfl | rfl | rfl | rfl | rfl | rfl | rfl <;> exact ⟨by decide, rfl⟩
    refine ⟨c, cs, hcs, hsymbol.1, ?_⟩
    rw [hsymbol.2, hsign]
    rfl
  | leftParen => exact ⟨'(', [], rfl, by decide, rfl⟩
  | rightParen => exact ⟨')', [], rfl, by decide, rfl⟩
  | comma => exact ⟨',', [], rfl, by decide, rfl⟩
  | colon => exact ⟨':', [], rfl, by decide, rfl⟩
  | unknown c =>
    obtain ⟨hblank, hletter, hdigit, hmem⟩ := ht
    have hquote : c ≠ '"' := by
      rintro rfl
      exact hmem (by decide)
    refine ⟨c, [], rfl, hblank, ?_⟩
    simp only [lexeme, List.nil_append, if_neg hquote, hdigit, hrest.any_isDigit, hletter,
      Bool.and_false, Bool.or_false, Bool.false_eq_true, if_false,
      sign_foreign ⟨hblank, hletter, hdigit, hmem⟩]
    rfl

/-- **Letters and digits side by side are read as a column and a row.** -/
theorem lexeme_reference {letters digits : String} (hl : (column letters).Writable)
    (hd : (row digits).Writable) (hrest : ∀ c ∈ rest.head?, Numeral.isDigit c = false) :
    ∃ c cs, letters.toList = c :: cs ∧ isBlank c = false ∧
      lexeme c (cs ++ (digits.toList ++ rest)) = ([column letters, row digits], rest) := by
  obtain ⟨hlne, hletters⟩ := hl
  obtain ⟨hdne, hdigits⟩ := hd
  obtain ⟨c, cs, hcs⟩ := List.exists_cons_of_ne_nil hlne
  obtain ⟨d, ds, hds⟩ := List.exists_cons_of_ne_nil hdne
  have hc : Column.isLetter c = true := hletters c (by simp [hcs])
  have hd : Numeral.isDigit d = true := hdigits d (by simp [hds])
  have hstop : ∀ c ∈ (digits.toList ++ rest).head?, Column.isLetter c = false := by
    rw [hds, List.cons_append, List.head?_cons]
    rintro c ⟨⟩
    exact isLetter_of_isDigit hd
  have hhead : (digits.toList ++ rest).head?.any Numeral.isDigit = true := by
    rw [hds]
    exact hd
  refine ⟨c, cs, hcs, isBlank_of_isLetter hc, ?_⟩
  rw [lexeme_isLetter hc, ← List.cons_append, ← hcs, word,
    List.takeWhile_append_stop hletters hstop, List.dropWhile_append_stop hletters hstop, hhead,
    List.takeWhile_append_stop hdigits hrest, List.dropWhile_append_stop hdigits hrest,
    String.ofList_toList, String.ofList_toList]
  rfl

/-! ### Lists of tokens -/

/-- Whether every column has its row right behind it, and there are no other rows. -/
def paired : List Token → Bool
  | [] => true
  | column _ :: row _ :: ts => paired ts
  | column _ :: _ => false
  | row _ :: _ => false
  | _ :: ts => paired ts

/-- Tokens one after the other, each with a text in front of it. -/
def written (ts : List (List Char × Token)) : List Char := ts.flatMap fun p => p.1 ++ p.2.spelling

/-- The tokens can be written, with blanks in front of each. Between two tokens there is at least
one blank, but a row stands right behind its column. -/
structure Spaced (ts : List (List Char × Token)) : Prop where
  blank : ∀ p ∈ ts, ∀ c ∈ p.1, isBlank c = true
  apart : ∀ p ∈ ts.tail, p.1 = [] ↔ p.2.isRow = true
  writable : ∀ p ∈ ts, p.2.Writable

variable {p : List Char × Token} {ts : List (List Char × Token)} {us : List Token}

theorem paired_cons (hcolumn : t.isColumn = false) (h : paired (t :: us) = true) :
    t.isRow = false ∧ paired us = true := by
  cases t with
  | column letters => cases hcolumn
  | row digits => cases h
  | _ => exact ⟨rfl, h⟩

theorem paired_column {letters : String} (h : paired (column letters :: us) = true) :
    ∃ digits vs, us = row digits :: vs ∧ paired vs = true := by
  cases us with
  | nil => cases h
  | cons u us =>
    cases u with
    | row digits => exact ⟨digits, us, rfl, h⟩
    | _ => cases h

theorem Spaced.tail (h : Spaced (p :: ts)) : Spaced ts where
  blank q hq := h.blank q (List.mem_cons_of_mem p hq)
  apart q hq := h.apart q (List.mem_of_mem_tail hq)
  writable q hq := h.writable q (List.mem_cons_of_mem p hq)

/-- What is written behind a token begins with a blank, unless it is a row. -/
theorem Spaced.ends (h : Spaced (p :: ts)) (hpaired : paired (ts.map Prod.snd) = true) :
    Ends (written ts) := by
  intro c hc
  cases ts with
  | nil => cases hc
  | cons q ts =>
    have hrow : q.2.isRow = false := by
      cases hq : q.2 with
      | row digits =>
        rw [List.map_cons, hq] at hpaired
        cases hpaired
      | _ => rfl
    have hne : q.1 ≠ [] := fun h1 => by
      rw [(h.apart q List.mem_cons_self).mp h1] at hrow
      cases hrow
    obtain ⟨b, bs, hbs⟩ := List.exists_cons_of_ne_nil hne
    have hb : b ∈ q.1 := by
      rw [hbs]
      exact List.mem_cons_self
    rw [written, List.flatMap_cons, hbs] at hc
    cases hc
    exact h.tail.blank q List.mem_cons_self _ hb

/-- A column stands in front of its row. -/
theorem Spaced.reference {ws : List Char} {letters : String}
    (h : Spaced ((ws, column letters) :: ts))
    (hpaired : paired (column letters :: ts.map Prod.snd) = true) :
    ∃ digits us, ts = ([], row digits) :: us ∧ paired (us.map Prod.snd) = true := by
  obtain ⟨digits, us, hus, hpaired⟩ := paired_column hpaired
  obtain ⟨⟨vs, u⟩, us, rfl, hu, rfl⟩ := List.map_eq_cons_iff.mp hus
  obtain rfl : u = row digits := hu
  obtain rfl : vs = [] := (h.apart _ List.mem_cons_self).mpr rfl
  exact ⟨digits, us, rfl, hpaired⟩

theorem ofText_blanks {ws : List Char} (h : ∀ c ∈ ws, isBlank c = true) (cs : List Char) :
    ofText (ws ++ cs) = ofText cs := by
  induction ws with
  | nil => rfl
  | cons c ws ih =>
    rw [List.cons_append, ofText_blank (h c List.mem_cons_self)]
    exact ih fun d hd => h d (List.mem_cons_of_mem c hd)

/-- **What is written is read back.** The induction is on the number of tokens, as a column is read
together with its row. -/
theorem ofText_written (h : Spaced ts) (hpaired : paired (ts.map Prod.snd) = true) :
    ofText (written ts) = ts.map fun p => p.2.unsigned := by
  induction hn : ts.length using Nat.strongRecOn generalizing ts with
  | ind n ih =>
    subst hn
    cases ts with
    | nil => exact ofText_nil
    | cons p ts =>
      obtain ⟨ws, t⟩ := p
      have hblank : ∀ c ∈ ws, isBlank c = true := h.blank _ List.mem_cons_self
      have ht : t.Writable := h.writable _ List.mem_cons_self
      cases hcolumn : t.isColumn with
      | false =>
        obtain ⟨hrow, hpaired⟩ := paired_cons hcolumn hpaired
        obtain ⟨c, cs, hcs, hc, hlexeme⟩ := lexeme_spelling ht hcolumn hrow (h.ends hpaired)
        calc ofText (written ((ws, t) :: ts)) = ofText (ws ++ c :: (cs ++ written ts)) := by
              simp only [written, List.flatMap_cons, hcs, List.append_assoc, List.cons_append]
          _ = t.unsigned :: ofText (written ts) := by
              rw [ofText_blanks hblank, ofText_cons hc, hlexeme, List.singleton_append]
          _ = ((ws, t) :: ts).map fun p => p.2.unsigned := by
              rw [ih _ (Nat.lt_succ_self _) h.tail hpaired rfl, List.map_cons]
      | true =>
        obtain ⟨letters, rfl⟩ : ∃ letters, t = column letters := by
          cases t with
          | column letters => exact ⟨letters, rfl⟩
          | _ => cases hcolumn
        obtain ⟨digits, us, rfl, hpaired⟩ := h.reference hpaired
        have hdigits : (row digits).Writable := h.tail.writable _ List.mem_cons_self
        obtain ⟨c, cs, hcs, hc, hlexeme⟩ :=
          lexeme_reference ht hdigits (h.tail.ends hpaired).not_isDigit
        calc ofText (written ((ws, column letters) :: ([], row digits) :: us))
            = ofText (ws ++ c :: (cs ++ (digits.toList ++ written us))) := by
              simp only [written, List.flatMap_cons, spelling, hcs, List.append_assoc,
                List.cons_append, List.nil_append]
          _ = column letters :: row digits :: ofText (written us) := by
              rw [ofText_blanks hblank, ofText_cons hc, hlexeme, List.cons_append,
                List.singleton_append]
          _ = ((ws, column letters) :: ([], row digits) :: us).map fun p => p.2.unsigned := by
              rw [ih us.length (by simp only [List.length_cons]; omega) h.tail.tail hpaired rfl]
              rfl

/-! ### The source of a formula -/

theorem unsigned_of_ne (h : t ≠ number (-0.0)) : t.unsigned = t := by
  cases t with
  | number x =>
    cases hx : x == 0 with
    | false => simp [unsigned, hx]
    | true =>
      rcases Number.eq_of_beq_zero hx with rfl | rfl
      · rfl
      · exact absurd rfl h
  | _ => rfl

theorem exists_getLast? (hne : cs ≠ []) (h : ∀ c ∈ cs, isBlank c = false) :
    ∃ c, cs.getLast? = some c ∧ isBlank c = false :=
  ⟨cs.getLast hne, List.getLast?_eq_some_getLast hne, h _ (List.getLast_mem hne)⟩

/-- The spelling of a token ends with no blank. -/
theorem spelling_getLast? (ht : t.Writable) :
    ∃ c, t.spelling.getLast? = some c ∧ isBlank c = false := by
  cases t with
  | number x =>
    obtain ⟨k, e, hshown, -⟩ := Number.exists_shown ht.1 ht.2
    rw [spelling, hshown]
    refine exists_getLast? (Decimal.plainSize_ne_nil k e) fun c hc => ?_
    rcases Decimal.mem_plainSize hc with hdigit | rfl
    · exact isBlank_of_isDigit hdigit
    · decide
  | text s =>
    refine ⟨'"', ?_, by decide⟩
    rw [spelling, quote, ← List.cons_append, List.getLast?_concat]
  | name letters => exact exists_getLast? ht.1 fun c hc => isBlank_of_isLetter (ht.2 c hc)
  | column letters => exact exists_getLast? ht.1 fun c hc => isBlank_of_isLetter (ht.2 c hc)
  | row digits => exact exists_getLast? ht.1 fun c hc => isBlank_of_isDigit (ht.2 c hc)
  | operator o => rcases o with o | o <;> cases o <;> exact ⟨_, rfl, by decide⟩
  | leftParen => exact ⟨'(', rfl, by decide⟩
  | rightParen => exact ⟨')', rfl, by decide⟩
  | comma => exact ⟨',', rfl, by decide⟩
  | colon => exact ⟨':', rfl, by decide⟩
  | unknown c => exact ⟨c, rfl, ht.1⟩

/-- What is written ends with no blank, as the text in front of it does. -/
theorem getLast?_written (h : ∀ p ∈ ts, p.2.Writable) (hcs : ∀ c ∈ cs.getLast?, isBlank c = false) :
    ∀ c ∈ (cs ++ written ts).getLast?, isBlank c = false := by
  induction ts generalizing cs with
  | nil => rwa [written, List.flatMap_nil, List.append_nil]
  | cons p ts ih =>
    obtain ⟨d, hd, hblank⟩ := spelling_getLast? (h p List.mem_cons_self)
    have hp : ∀ c ∈ (cs ++ (p.1 ++ p.2.spelling)).getLast?, isBlank c = false := by
      rw [← List.append_assoc, List.getLast?_append, hd]
      rintro c ⟨⟩
      exact hblank
    rw [written, List.flatMap_cons, ← List.append_assoc]
    exact ih (fun q hq => h q (List.mem_cons_of_mem p hq)) hp

theorem body_equals (h : ∀ c ∈ ('=' :: cs).getLast?, isBlank c = false) :
    body ('=' :: cs) = cs := by
  simp only [body, trim_eq_self (show isBlank '=' = false from rfl) h]

theorem body_eq_self (hequals : c ≠ '=') (hc : isBlank c = false)
    (h : ∀ d ∈ (c :: cs).getLast?, isBlank d = false) : body (c :: cs) = c :: cs := by
  unfold body
  rw [trim_eq_self hc h]
  split
  · next heq => exact absurd (List.cons.inj heq).1 hequals
  · rfl

/-- **The source that writes a list of tokens is read as the list.** Zero is read without a sign. -/
theorem ofSource_written (h : Spaced ts) (hpaired : paired (ts.map Prod.snd) = true) :
    ofSource (String.ofList ('=' :: written ts)) = (ts.map fun p => p.2.unsigned) ∧
      ((∀ p ∈ ts, p.2 ≠ number (-0.0)) →
        ofSource (String.ofList ('=' :: written ts)) = ts.map Prod.snd) := by
  have hread : ofSource (String.ofList ('=' :: written ts)) = ts.map fun p => p.2.unsigned := by
    have hlast : ∀ c ∈ (['='] ++ written ts).getLast?, isBlank c = false := by
      refine getLast?_written h.writable ?_
      rintro c ⟨⟩
      rfl
    have hbody : body ('=' :: written ts) = written ts := body_equals hlast
    rw [ofSource, String.toList_ofList, hbody, ofText_written h hpaired]
  refine ⟨hread, fun hzero => hread.trans (List.map_congr_left fun p hp => ?_)⟩
  exact unsigned_of_ne (hzero p hp)

/-- A text with a quote in it, signs that begin alike, a number below one, a cell and a lone
point. -/
theorem ofSource_written_signs : ofSource (String.ofList ('=' :: written
    [([' '], text "a\"b"), (['\t'], operator (.comparison .less)),
      ([' '], operator (.comparison .equal)), ([' ', '\n'], number 0.5), ([' '], column "Ab"),
      ([], row "07"), ([' '], name "IF"), ([' '], unknown '.')])) =
    [text "a\"b", operator (.comparison .less), operator (.comparison .equal), number 0.5,
      column "Ab", row "07", name "IF", unknown '.'] :=
  (ofSource_written ⟨by simp [isBlank, blankRuns], by decide, by decide +kernel⟩ rfl).2
    (by decide +kernel)

end Token

end Spreadsheet
