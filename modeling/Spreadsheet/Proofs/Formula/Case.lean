import Spreadsheet.Proofs.Formula.Lexing

/-! # Texts that differ in case

`Token.Recased` relates two texts that differ in nothing but the case of English letters outside
quotes. Such texts are the same with these letters in upper case (`Token.recased_iff`), so it is
enough to follow one text and its upper case, `Token.capitalOutside`. Quotes are followed as texts
are read (`Token.unquote_capitalOutside`), and every lexeme has the same extent
(`Token.lexeme_capitalOutside`). So the tokens of two such texts differ in the case of names and
columns alone: `Token.Recased.map_upper_ofSource`. -/

namespace Spreadsheet

namespace Column

variable {c d : Char}

theorem capital_of_not_isLetter (h : isLetter c = false) : capital c = c := by
  have hsmall : ¬('a' ≤ c && c ≤ 'z') = true := by
    intro hs
    rw [isLetter, hs, Bool.or_true] at h
    cases h
  rw [capital, if_neg hsmall]

theorem map_capital_eq {cs : List Char} (h : ∀ c ∈ cs, isLetter c = false) : cs.map capital = cs :=
  (List.map_congr_left fun c hc => capital_of_not_isLetter (h c hc)).trans (List.map_id cs)

@[simp] theorem isLetter_capital (c : Char) : isLetter (capital c) = isLetter c := by
  cases h : isLetter c with
  | true =>
    obtain ⟨k, hk, hcapital⟩ := exists_letter h
    rw [hcapital, isLetter_letter hk]
  | false => rw [capital_of_not_isLetter h, h]

theorem isLetter_eq_of_capital_eq (h : capital c = capital d) : isLetter c = isLetter d := by
  rw [← isLetter_capital, h, isLetter_capital]

/-- What letters do not have is not changed by upper case. -/
theorem apply_capital {p : Char → Bool} (hp : ∀ c, isLetter c = true → p c = false) (c : Char) :
    p (capital c) = p c := by
  cases h : isLetter c with
  | true => rw [hp c h, hp _ ((isLetter_capital c).trans h)]
  | false => rw [capital_of_not_isLetter h]

@[simp] theorem isDigit_capital (c : Char) : Numeral.isDigit (capital c) = Numeral.isDigit c :=
  apply_capital (fun _ => Token.isDigit_of_isLetter) c

@[simp] theorem isBlank_capital (c : Char) : Text.isBlank (capital c) = Text.isBlank c :=
  apply_capital (fun _ => Token.isBlank_of_isLetter) c

/-- Only letters become letters. -/
theorem capital_eq_iff (hd : isLetter d = false) : capital c = d ↔ c = d := by
  have h := apply_capital (p := (· == d)) (fun e he => ?_) c
  · rw [← beq_iff_eq, h, beq_iff_eq]
  · rw [beq_eq_false_iff_ne]
    rintro rfl
    rw [hd] at he
    cases he

theorem capital_ne (hd : isLetter d = false) (h : c ≠ d) : capital c ≠ d :=
  mt (capital_eq_iff hd).mp h

theorem letterValue_capital (c : Char) : letterValue (capital c) = letterValue c := by
  have hidem : capital (capital c) = capital c := by
    cases h : isLetter c with
    | true =>
      obtain ⟨k, hk, hcapital⟩ := exists_letter h
      rw [hcapital]
      exact (by decide : ∀ k < 26, capital (letter k) = letter k) k hk
    | false => rw [capital_of_not_isLetter h, capital_of_not_isLetter h]
  rw [letterValue, hidem, letterValue]

/-- **A label names the same column in upper case.** -/
theorem read_map_capital {label : List Char} {column : UInt16} :
    read (label.map capital) = .ok column ↔ read label = .ok column := by
  have hvalue : value (label.map capital) = value label := by
    simp only [value, List.foldl_map, letterValue_capital]
  rw [read_eq_ok_iff, read_eq_ok_iff, hvalue, List.forall_mem_map]
  simp only [isLetter_capital]

end Column

open Column (capital)

/-- A text in upper case. -/
def Text.upper (s : String) : String := String.ofList (s.toList.map capital)

namespace Token

variable {c : Char} {cs ds rest : List Char} {quoted : Bool}

/-! ### Texts that differ in case -/

/-- Two texts differ at most in the case of letters outside quotes; `quoted` says whether they begin
within quotes, and every quote opens or closes them. -/
inductive Recased : (quoted : Bool) → List Char → List Char → Prop
  | nil (quoted : Bool) : Recased quoted [] []
  | same {quoted : Bool} {cs ds : List Char} (c : Char) (h : Recased (quoted != (c == '"')) cs ds) :
    Recased quoted (c :: cs) (c :: ds)
  | letter {c d : Char} {cs ds : List Char} (hc : Column.isLetter c = true)
    (hcase : capital c = capital d) (h : Recased false cs ds) : Recased false (c :: cs) (d :: ds)

/-- A text with all letters outside quotes in upper case. -/
def capitalOutside : (quoted : Bool) → List Char → List Char
  | _, [] => []
  | quoted, c :: cs =>
    (if quoted then c else capital c) :: capitalOutside (quoted != (c == '"')) cs

theorem isEmpty_capitalOutside (quoted : Bool) (cs : List Char) :
    (capitalOutside quoted cs).isEmpty = cs.isEmpty := by
  cases cs <;> rfl

@[simp] theorem capitalOutside_quote (quoted : Bool) (cs : List Char) :
    capitalOutside quoted ('"' :: cs) = '"' :: capitalOutside (!quoted) cs := by
  cases quoted <;> rfl

theorem capitalOutside_cons (hc : c ≠ '"') (quoted : Bool) (cs : List Char) :
    capitalOutside quoted (c :: cs) =
      (if quoted then c else capital c) :: capitalOutside quoted cs := by
  rw [capitalOutside, beq_eq_false_iff_ne.mpr hc, Bool.bne_false]

/-- A character that is no letter stays at the front. -/
theorem capitalOutside_other (hc : c ≠ '"') (hl : Column.isLetter c = false) (cs : List Char) :
    capitalOutside false (c :: cs) = c :: capitalOutside false cs := by
  rw [capitalOutside_cons hc, if_neg Bool.false_ne_true, Column.capital_of_not_isLetter hl]

theorem capitalOutside_letter (hc : Column.isLetter c = true) (cs : List Char) :
    capitalOutside false (c :: cs) = capital c :: capitalOutside false cs := by
  have hquote : c ≠ '"' := by
    rintro rfl
    cases hc
  rw [capitalOutside_cons hquote, if_neg Bool.false_ne_true]

/-- **Two texts differ at most in the case of letters outside quotes** exactly if they are the same
with these letters in upper case. -/
theorem recased_iff :
    Recased quoted cs ds ↔ capitalOutside quoted cs = capitalOutside quoted ds := by
  constructor
  · intro h
    induction h with
    | nil quoted => rfl
    | same c _ ih => rw [capitalOutside, capitalOutside, ih]
    | letter hc hcase _ ih =>
      have hd := (Column.isLetter_eq_of_capital_eq hcase).symm.trans hc
      rw [capitalOutside_letter hc, capitalOutside_letter hd, hcase, ih]
  · intro h
    induction cs generalizing quoted ds with
    | nil =>
      cases ds with
      | nil => exact .nil quoted
      | cons d ds => cases h
    | cons c cs ih =>
      cases ds with
      | nil => cases h
      | cons d ds =>
        by_cases hcd : c = d
        · subst hcd
          exact .same c (ih (List.cons.inj h).2)
        have hhead := (List.cons.inj h).1
        cases quoted with
        | true => exact absurd hhead hcd
        | false =>
          have hcase : capital c = capital d := hhead
          have hc : Column.isLetter c = true := by
            rw [← Bool.not_eq_false]
            intro hc
            rw [Column.capital_of_not_isLetter hc] at hcase
            exact hcd ((Column.capital_eq_iff hc).mp hcase.symm).symm
          have hd := (Column.isLetter_eq_of_capital_eq hcase).symm.trans hc
          rw [capitalOutside_letter hc, capitalOutside_letter hd] at h
          exact .letter hc hcase (ih (List.cons.inj h).2)

instance : Decidable (Recased quoted cs ds) := decidable_of_iff _ recased_iff.symm

theorem head?_capitalOutside (cs : List Char) :
    (capitalOutside false cs).head? = cs.head?.map capital := by
  cases cs <;> rfl

section

variable {p : Char → Bool} (hp : ∀ c, p (capital c) = p c) (hq : p '"' = false)
include hp hq

/-- A run that quotes end is cut off at the same place. -/
theorem dropWhile_capitalOutside (quoted : Bool) (cs : List Char) :
    (capitalOutside quoted cs).dropWhile p = capitalOutside quoted (cs.dropWhile p) := by
  induction cs with
  | nil => rfl
  | cons c cs ih =>
    by_cases hc : c = '"'
    · subst hc
      rw [capitalOutside_quote, List.dropWhile_cons_of_neg (by simp [hq]),
        List.dropWhile_cons_of_neg (by simp [hq]), capitalOutside_quote]
    · have hpc : p (if quoted then c else capital c) = p c := by
        split
        · rfl
        · exact hp c
      rw [capitalOutside_cons hc, List.dropWhile_cons, hpc, ih, List.dropWhile_cons]
      split
      · rfl
      · rw [capitalOutside_cons hc]

theorem takeWhile_capitalOutside (cs : List Char) :
    (capitalOutside false cs).takeWhile p = (cs.takeWhile p).map capital := by
  induction cs with
  | nil => rfl
  | cons c cs ih =>
    by_cases hc : c = '"'
    · subst hc
      rw [capitalOutside_quote, List.takeWhile_cons_of_neg (by simp [hq]),
        List.takeWhile_cons_of_neg (by simp [hq])]
      rfl
    · rw [capitalOutside_cons hc, if_neg Bool.false_ne_true, List.takeWhile_cons, hp, ih,
        List.takeWhile_cons]
      split
      · rfl
      · rfl

end

theorem map_capital_digits (h : ∀ c ∈ cs, Numeral.isDigit c = true) : cs.map capital = cs :=
  Column.map_capital_eq fun c hc => isLetter_of_isDigit (h c hc)

theorem takeWhile_isDigit_capitalOutside (cs : List Char) :
    (capitalOutside false cs).takeWhile Numeral.isDigit = cs.takeWhile Numeral.isDigit := by
  rw [takeWhile_capitalOutside Column.isDigit_capital rfl]
  exact map_capital_digits (List.all_eq_true.mp List.all_takeWhile)

/-! ### Tokens -/

/-- A token with its letters in upper case, unless it is a text. -/
def upper : Token → Token
  | name letters => name (Text.upper letters)
  | column letters => column (Text.upper letters)
  | row digits => row (Text.upper digits)
  | t => t

/-- **Quotes are followed as texts are read**: within them nothing changes, and the reading goes on
outside. -/
theorem unquote_capitalOutside (cs : List Char) :
    unquote (capitalOutside true cs) = ((unquote cs).1, capitalOutside false (unquote cs).2) := by
  fun_induction unquote cs with
  | case1 => rfl
  | case2 rest ih =>
    rw [capitalOutside_quote, capitalOutside_quote, unquote, Bool.not_not, ih]
  | case3 rest hrest =>
    rw [capitalOutside_quote, unquote]
    · rfl
    · intro r hr
      have hhead := congrArg List.head? hr
      rw [Bool.not_true, head?_capitalOutside, List.head?_cons, Option.map_eq_some_iff] at hhead
      obtain ⟨c, hc, hquote⟩ := hhead
      rw [Column.capital_eq_iff (by decide)] at hquote
      rw [hquote] at hc
      obtain ⟨r, rfl⟩ := List.head?_eq_some_iff.mp hc
      exact hrest r rfl
  | case4 c rest hc hc' ih =>
    rw [capitalOutside_cons hc', if_pos rfl, unquote, ih]
    · exact fun r hr => absurd hr hc'
    · exact hc'

theorem any_isDigit_capitalOutside (cs : List Char) :
    (capitalOutside false cs).head?.any Numeral.isDigit = cs.head?.any Numeral.isDigit := by
  rw [head?_capitalOutside, Option.any_map]
  congr 1
  funext c
  exact Column.isDigit_capital c

/-- The front of a text and the text with its letters in upper case. -/
theorem capitalOutside_false_cons (c : Char) (cs : List Char) :
    capitalOutside false (c :: cs) = capital c :: capitalOutside (c == '"') cs := by
  rw [capitalOutside, if_neg Bool.false_ne_true, Bool.false_bne]

theorem numeral_capitalOutside (cs : List Char) :
    numeral (capitalOutside false cs) = ((numeral cs).1, capitalOutside false (numeral cs).2) := by
  have hdrop := dropWhile_capitalOutside Column.isDigit_capital rfl false
  simp only [numeral, Decimal.splitPoint, takeWhile_isDigit_capitalOutside, hdrop]
  rcases cs.dropWhile Numeral.isDigit with _ | ⟨c, rest⟩
  · rfl
  by_cases hc : c = '.'
  · subst hc
    rw [capitalOutside_other (by decide) (by decide)]
    simp only [takeWhile_isDigit_capitalOutside, hdrop]
  · have hcapital : capital c ≠ '.' := Column.capital_ne (by decide) hc
    rw [capitalOutside_false_cons]
    split
    · next heq => exact absurd (List.cons.inj heq).1 hcapital
    · split
      · next heq => exact absurd (List.cons.inj heq).1 hc
      · rw [capitalOutside_false_cons]

theorem word_capitalOutside (cs : List Char) :
    word (capitalOutside false cs) = ((word cs).1.map upper, capitalOutside false (word cs).2) := by
  have hletters := takeWhile_capitalOutside Column.isLetter_capital rfl cs
  have hdrop := dropWhile_capitalOutside Column.isLetter_capital rfl false cs
  have hdigits := dropWhile_capitalOutside Column.isDigit_capital rfl false
    (cs.dropWhile Column.isLetter)
  have hdigit : ∀ c ∈ (cs.dropWhile Column.isLetter).takeWhile Numeral.isDigit,
      Numeral.isDigit c = true := List.all_eq_true.mp List.all_takeWhile
  simp only [word, hletters, hdrop, any_isDigit_capitalOutside]
  split
  · simp only [takeWhile_isDigit_capitalOutside, hdigits, List.map_cons, List.map_nil, upper,
      Text.upper, String.toList_ofList, map_capital_digits hdigit]
  · simp only [List.map_cons, List.map_nil, upper, Text.upper, String.toList_ofList]

theorem upper_sign (c : Char) (rest : List Char) : (sign c rest).1.upper = (sign c rest).1 := by
  unfold sign
  split <;> try rfl
  all_goals split <;> rfl

theorem sign_less_capitalOutside (rest : List Char) :
    sign '<' (capitalOutside false rest) =
      ((sign '<' rest).1, capitalOutside false (sign '<' rest).2) := by
  rcases rest with _ | ⟨c, rest⟩
  · rfl
  by_cases heq : c = '='
  · rw [heq, capitalOutside_other (by decide) (by decide)]
    rfl
  by_cases hgt : c = '>'
  · rw [hgt, capitalOutside_other (by decide) (by decide)]
    rfl
  have hless : ∀ d r, d ≠ '=' → d ≠ '>' →
      sign '<' (d :: r) = (operator (.comparison .less), d :: r) := by
    intro d r hd hd'
    simp only [sign]
    split
    · next h => exact absurd (List.cons.inj h).1 hd
    · next h => exact absurd (List.cons.inj h).1 hd'
    · rfl
  rw [hless c rest heq hgt, capitalOutside_false_cons, hless _ _
    (Column.capital_ne (by decide) heq) (Column.capital_ne (by decide) hgt)]

theorem sign_greater_capitalOutside (rest : List Char) :
    sign '>' (capitalOutside false rest) =
      ((sign '>' rest).1, capitalOutside false (sign '>' rest).2) := by
  rcases rest with _ | ⟨c, rest⟩
  · rfl
  by_cases heq : c = '='
  · rw [heq, capitalOutside_other (by decide) (by decide)]
    rfl
  have hgreater : ∀ d r, d ≠ '=' →
      sign '>' (d :: r) = (operator (.comparison .greater), d :: r) := by
    intro d r hd
    simp only [sign]
    split
    · next h => exact absurd (List.cons.inj h).1 hd
    · rfl
  rw [hgreater c rest heq, capitalOutside_false_cons,
    hgreater _ _ (Column.capital_ne (by decide) heq)]

theorem sign_capitalOutside (c : Char) (rest : List Char) :
    sign c (capitalOutside false rest) =
      ((sign c rest).1, capitalOutside false (sign c rest).2) := by
  by_cases hless : c = '<'
  · rw [hless, sign_less_capitalOutside]
  by_cases hgreater : c = '>'
  · rw [hgreater, sign_greater_capitalOutside]
  -- the other signs are single characters
  unfold sign
  split <;> first | rfl | contradiction

/-- **A lexeme has the same extent in upper case.** -/
theorem lexeme_capitalOutside (c : Char) (rest : List Char) :
    lexeme (capital c) (capitalOutside (c == '"') rest) =
      ((lexeme c rest).1.map upper, capitalOutside false (lexeme c rest).2) := by
  by_cases hquote : c = '"'
  · subst hquote
    have hcapital : capital '"' = '"' := Column.capital_of_not_isLetter rfl
    rw [hcapital, lexeme, if_pos rfl, lexeme, if_pos rfl, beq_self_eq_true,
      unquote_capitalOutside]
    rfl
  have hquote' : capital c ≠ '"' := Column.capital_ne (by decide) hquote
  have hpoint : (capital c == '.') = (c == '.') := by
    rw [Bool.eq_iff_iff, beq_iff_eq, beq_iff_eq, Column.capital_eq_iff (by decide)]
  have hcons : capital c :: capitalOutside false rest = capitalOutside false (c :: rest) := by
    rw [capitalOutside_false_cons, beq_eq_false_iff_ne.mpr hquote]
  rw [beq_eq_false_iff_ne.mpr hquote, lexeme, lexeme, if_neg hquote', if_neg hquote,
    Column.isDigit_capital, hpoint, any_isDigit_capitalOutside, Column.isLetter_capital, hcons]
  split
  · rw [numeral_capitalOutside]
    rfl
  · split
    · rw [word_capitalOutside]
    · next hletter =>
      rw [Column.capital_of_not_isLetter (by simpa using hletter), sign_capitalOutside,
        List.map_cons, upper_sign, List.map_nil]

/-- **The tokens of a text in upper case are its tokens in upper case.** -/
theorem ofText_capitalOutside (cs : List Char) :
    ofText (capitalOutside false cs) = (ofText cs).map upper := by
  induction h : cs.length using Nat.strongRecOn generalizing cs with
  | ind n ih =>
    subst h
    rcases cs with _ | ⟨c, rest⟩
    · rw [capitalOutside, ofText_nil]
      rfl
    rw [capitalOutside_false_cons]
    cases hblank : Text.isBlank c with
    | true =>
      have hquote : (c == '"') = false := by
        rw [beq_eq_false_iff_ne]
        rintro rfl
        cases hblank
      rw [ofText_blank (by rw [Column.isBlank_capital, hblank]), ofText_blank hblank, hquote,
        ih _ (Nat.lt_succ_self _) rest rfl]
    | false =>
      rw [ofText_cons (by rw [Column.isBlank_capital, hblank]), ofText_cons hblank,
        lexeme_capitalOutside, List.map_append,
        ih _ (Nat.lt_succ_of_le (lexeme_length c rest)) _ rfl]

/-! ### Sources -/

theorem trimEnd_cons (c : Char) (cs : List Char) : Text.trimEnd (c :: cs) =
    if (Text.trimEnd cs).isEmpty && Text.isBlank c then [] else c :: Text.trimEnd cs := by
  rw [Text.trimEnd, Text.trimEnd, List.reverse_cons, List.dropWhile_append, List.isEmpty_reverse]
  cases hempty : (List.dropWhile Text.isBlank cs.reverse).isEmpty with
  | true =>
    rw [if_pos rfl, List.isEmpty_iff.mp hempty, Bool.true_and, List.dropWhile_cons,
      List.dropWhile_nil]
    split
    · rfl
    · rfl
  | false => simp

theorem trimEnd_capitalOutside (quoted : Bool) (cs : List Char) :
    Text.trimEnd (capitalOutside quoted cs) = capitalOutside quoted (Text.trimEnd cs) := by
  induction cs generalizing quoted with
  | nil => rfl
  | cons c cs ih =>
    have hblank : Text.isBlank (if quoted then c else capital c) = Text.isBlank c := by
      split
      · rfl
      · exact Column.isBlank_capital c
    rw [capitalOutside, trimEnd_cons, ih, hblank, isEmpty_capitalOutside, trimEnd_cons]
    split
    · rfl
    · rw [capitalOutside]

theorem body_capitalOutside (cs : List Char) :
    body (capitalOutside false cs) = capitalOutside false (body cs) := by
  have htrim : Text.trim (capitalOutside false cs) = capitalOutside false (Text.trim cs) := by
    rw [Text.trim, Text.trimStart, dropWhile_capitalOutside Column.isBlank_capital rfl,
      trimEnd_capitalOutside]
    rfl
  rw [body, body, htrim]
  rcases Text.trim cs with _ | ⟨c, rest⟩
  · rfl
  by_cases hc : c = '='
  · rw [hc, capitalOutside_other (by decide) (by decide)]
    rfl
  · have hcapital : capital c ≠ '=' := Column.capital_ne (by decide) hc
    rw [capitalOutside_false_cons]
    split
    · next heq => exact absurd (List.cons.inj heq).1 hcapital
    · split
      · next heq => exact absurd (List.cons.inj heq).1 hc
      · rw [capitalOutside_false_cons]

/-- **Sources that differ in the case of letters outside quotes have the same tokens**, up to the
case of names and columns. -/
theorem Recased.map_upper_ofSource {source source' : String}
    (h : Recased false source.toList source'.toList) :
    (ofSource source).map upper = (ofSource source').map upper := by
  rw [ofSource, ofSource, ← ofText_capitalOutside, ← ofText_capitalOutside,
    ← body_capitalOutside, ← body_capitalOutside, recased_iff.mp h]

end Token

end Spreadsheet
