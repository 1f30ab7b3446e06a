import Spreadsheet.Proofs.Formula.Reader

/-! # What stands beside a token

Main statement: `Token.ofSource_regular`. The letters of a column have their row right behind them,
and digits that are a row stand there and nowhere else (`Token.Regular`). What carries this to the
items is that an item leaves no half of a reference behind (`Item.paired_next`): wherever an item is
read (`Item.Meets`, `Item.exists_meets`), there is no row, and behind a column there is its row.

A cut through paired tokens leaves paired tokens behind it, unless it goes between a column and its
row: `Token.paired_append`. -/

namespace Spreadsheet

namespace Token

variable {ts us : List Token} {t : Token} {c : Char} {letters digits : String}

/-- **Tokens as they can be read from a text**, and what stands beside each of them. -/
structure Regular (ts : List Token) : Prop where
  /-- A column is a run of letters, and its row is right behind it. -/
  columns : ∀ before letters behind, ts = before ++ column letters :: behind →
    (letters.toList ≠ [] ∧ ∀ c ∈ letters.toList, Column.isLetter c = true) ∧
      ∃ digits us, behind = row digits :: us
  /-- A row is a run of digits, and its column is right in front of it. -/
  rows : ∀ before digits behind, ts = before ++ row digits :: behind →
    (digits.toList ≠ [] ∧ ∀ c ∈ digits.toList, Numeral.isDigit c = true) ∧
      ∃ us letters, before = us ++ [column letters]
  /-- Letters with digits behind them are no name. -/
  names : ∀ before letters digits behind, ts ≠ before ++ name letters :: row digits :: behind
  /-- A number has no minus, and is a number. -/
  numbers : ∀ x, number x ∈ ts → 0 ≤ x ∧ x.isNaN = false

/-! ### Neighbours -/

/-- **Where tokens are cut in two**, the second part is paired as well, or the cut goes between a
column and its row. -/
theorem paired_append : ∀ (ts us : List Token), paired (ts ++ us) = true → paired us = true ∨
    ∃ init letters digits vs, ts = init ++ [column letters] ∧ us = row digits :: vs
  | [], us, h => Or.inl h
  | t :: ts, us, h => by
    cases hcolumn : t.isColumn with
    | false =>
      refine (paired_append ts us (paired_cons hcolumn h).2).imp_right ?_
      rintro ⟨init, letters, digits, vs, rfl, rfl⟩
      exact ⟨t :: init, letters, digits, vs, rfl, rfl⟩
    | true =>
      cases t with
      | column letters =>
        obtain ⟨digits, vs, hvs, hpaired⟩ := paired_column h
        cases ts with
        | nil => exact Or.inr ⟨[], letters, digits, vs, rfl, hvs⟩
        | cons u ts =>
          -- the column is passed together with its row
          obtain ⟨rfl, rfl⟩ := List.cons.inj hvs
          refine (paired_append ts us hpaired).imp_right ?_
          rintro ⟨init, last, digits', vs, rfl, rfl⟩
          exact ⟨column letters :: row digits :: init, last, digits', vs, rfl, rfl⟩
      | _ => cases hcolumn

theorem row_behind_column (h : paired (ts ++ column letters :: us) = true) :
    ∃ digits vs, us = row digits :: vs := by
  rcases paired_append _ _ h with h | ⟨-, -, digits, vs, -, hrow⟩
  · obtain ⟨digits, vs, hvs, -⟩ := paired_column h
    exact ⟨digits, vs, hvs⟩
  · cases hrow

theorem column_before_row (h : paired (ts ++ row digits :: us) = true) :
    ∃ init letters, ts = init ++ [column letters] := by
  rcases paired_append _ _ h with h | ⟨init, letters, -, -, hts, -⟩
  · cases h
  · exact ⟨init, letters, hts⟩

theorem paired_ofSource (source : String) : paired (ofSource source) = true := by
  rw [ofSource, ← Reader.tokens_eq]
  exact (Reader.paired_tokens _).1 rfl

/-! ### The steps of the reading -/

namespace Reader

variable {q r : Reader} {x : Float}

/-- **No number is below zero**, and each is a number. -/
theorem nonneg_of_mem_trace (h : (q, .number x) ∈ r.trace) : 0 ≤ x ∧ x.isNaN = false := by
  obtain ⟨-, hrow⟩ | ⟨-, c, rest, q', -, -, hlexeme⟩ := lexeme_of_mem_trace h
  · cases hrow
  · have htakes := takes_lexeme c rest
    rw [hlexeme] at htakes
    cases htakes with
    | lone ht _ =>
      cases ht with
      | number d hd => exact ⟨Decimal.nonneg_toFloat hd, d.isNaN_toFloat⟩
      | sign hsign => cases hsign

/-- **A character is without meaning** exactly if it is no blank and begins no other token where it
stands. -/
theorem eq_unknown_iff (h : (q, t) ∈ r.trace) : t = unknown c ↔
    q.atRow = false ∧ ∃ rest, Text.trimStart q.rest = c :: rest ∧ Foreign c ∧
      ¬(c = '.' ∧ rest.head?.any Numeral.isDigit = true) := by
  obtain ⟨hatRow, hrow⟩ | ⟨hatRow, c', rest, q', htrim, hblank, hlexeme⟩ := lexeme_of_mem_trace h
  · simp only [hatRow, Bool.true_eq_false, false_and, iff_false]
    rintro rfl
    cases hrow
  constructor
  · rintro rfl
    have htakes := takes_lexeme c' rest
    rw [hlexeme] at htakes
    cases htakes with
    | lone ht _ =>
      cases ht with
      | unknown hforeign hpoint => exact ⟨hatRow, rest, htrim, hforeign hblank, hpoint⟩
      | sign hsign => cases hsign
  · rintro ⟨-, rest', htrim', hforeign, hpoint⟩
    obtain ⟨rfl, rfl⟩ := List.cons.inj (htrim.symm.trans htrim')
    exact (congrArg Prod.fst hlexeme).symm.trans
      (congrArg Prod.fst (lexeme_foreign hforeign hpoint))

end Reader

end Token

/-! ### Items -/

namespace Item

open Token

variable {limits : Limits} {m : Marker} {i : Item} {ts us rest : List Token} {t : Token}

/-- The tokens that are still to be read when an item is read, and when all have been. -/
inductive Meets (limits : Limits) (ts : List Token) : List Token → Prop
  | start : Meets limits ts ts
  | next {t : Token} {rest : List Token} (h : Meets limits ts (t :: rest)) :
    Meets limits ts (Item.next limits t rest).2

/-- Each item is read at tokens that are met. -/
theorem exists_meets (hmeets : Meets limits ts us) (h : i ∈ ofTokens limits us) :
    ∃ t rest, Meets limits ts (t :: rest) ∧ (Item.next limits t rest).1 = i := by
  induction hn : us.length using Nat.strongRecOn generalizing us with
  | ind n ih =>
    subst hn
    cases us with
    | nil =>
      rw [ofTokens_nil] at h
      cases h
    | cons t rest =>
      have hshorter : (Item.next limits t rest).2.length < (t :: rest).length :=
        Nat.lt_succ_of_le (next_length limits t rest)
      rw [ofTokens_cons] at h
      rcases List.mem_cons.mp h with rfl | h
      · exact ⟨t, rest, hmeets, rfl⟩
      · exact ih _ hshorter hmeets.next h rfl

theorem Spells.paired (hi : Spells limits i ts) (h : paired (ts ++ us) = true) :
    paired us = true := by
  cases hi with
  | callColumn c => cases h
  | _ => exact h

theorem Fails.paired (hm : Fails limits m ts us) (h : paired (ts ++ us) = true) :
    paired us = true := by
  cases hm with
  | column c hrow hparen =>
    obtain ⟨digits, vs, rfl, -⟩ := paired_column h
    exact absurd rfl (hrow digits)
  | row r => cases h
  | _ => exact h

/-- **No item takes a column without its row.** -/
theorem paired_next (h : paired (t :: rest) = true) :
    paired (Item.next limits t rest).2 = true := by
  obtain ⟨ts, us, hts, -, ⟨i, hi, hstops⟩ | ⟨m, hm⟩⟩ := exists_first limits t rest
  · obtain ⟨t', rest', hfirst, hnext⟩ := hi.next_eq hstops
    obtain ⟨rfl, rfl⟩ := List.cons.inj (hts.trans hfirst)
    rw [hnext]
    exact hi.paired (hts ▸ h)
  · obtain ⟨t', rest', hfirst, hnext⟩ := hm.next_eq
    obtain ⟨rfl, rfl⟩ := List.cons.inj (hts.trans hfirst)
    rw [hnext]
    exact hm.paired (hts ▸ h)

theorem Meets.paired (hmeets : Meets limits ts us) (h : paired ts = true) : paired us = true := by
  induction hmeets with
  | start => exact h
  | next _ ih => exact paired_next ih

end Item

namespace Token

theorem regular_ofSource (source : String) : Regular (ofSource source) where
  columns before letters behind hts := by
    have hpaired := paired_ofSource source
    rw [hts] at hpaired
    have hrun : (column letters).IsRun := isRun_of_mem_ofSource source _ (by simp [hts])
    exact ⟨hrun, row_behind_column hpaired⟩
  rows before digits behind hts := by
    have hpaired := paired_ofSource source
    rw [hts] at hpaired
    have hrun : (row digits).IsRun := isRun_of_mem_ofSource source _ (by simp [hts])
    exact ⟨hrun, column_before_row hpaired⟩
  names before letters digits behind hts := by
    have hpaired := paired_ofSource source
    rw [hts, List.append_cons] at hpaired
    obtain ⟨init, letters', hinit⟩ := column_before_row hpaired
    cases (List.append_inj' hinit rfl).2
  numbers x hx := by
    rw [ofSource, ← Reader.tokens_eq] at hx
    obtain ⟨⟨q, t⟩, hq, rfl⟩ := List.mem_map.mp hx
    exact Reader.nonneg_of_mem_trace hq

/-- **The tokens of a source are such as formulas expect.** They are read one by one; a column has
its row right behind it, both are runs of letters and of digits that are not empty, there is no other
row, and none behind a name; a number is not below zero; and a character is without meaning exactly
if it is no blank and begins no other token where it stands, so the text of a number always is one.
Hence, whatever the limits, an item is never read at a row, nor at a column without its row. -/
theorem ofSource_regular (source : String) :
    (Reader.mk (body source.toList) false).tokens = ofSource source ∧
    Regular (ofSource source) ∧
    (∀ q t, (q, t) ∈ (Reader.mk (body source.toList) false).trace → ∀ c, t = unknown c ↔
      q.atRow = false ∧ ∃ rest, Text.trimStart q.rest = c :: rest ∧ Foreign c ∧
        ¬(c = '.' ∧ rest.head?.any Numeral.isDigit = true)) ∧
    ∀ limits t rest, Item.Meets limits (ofSource source) (t :: rest) →
      (∀ digits, t ≠ row digits) ∧
        ∀ letters, t = column letters → ∃ digits us, rest = row digits :: us := by
  refine ⟨Reader.tokens_eq _, regular_ofSource source,
    fun q t hq c => Reader.eq_unknown_iff hq, fun limits t rest hmeets => ?_⟩
  have hpaired := hmeets.paired (paired_ofSource source)
  constructor
  · rintro digits rfl
    cases hpaired
  · rintro letters rfl
    obtain ⟨digits, us, hus, -⟩ := paired_column hpaired
    exact ⟨digits, us, hus⟩

end Token

end Spreadsheet
