import Spreadsheet.Proofs.Formula.Case
import Spreadsheet.Proofs.Formula.Scanning
import Spreadsheet.Proofs.Program.Renaming

/-! # The case of formulas

Letters outside quotes have no case to a formula. A column is the same one in either case
(`Address.named_upper`), so the items of tokens in upper case are their items, but for the names of
functions (`Item.ofTokens_map_upper`), and a function has its name in either case
(`Function.named?_upper`). So two formulas that differ in nothing but the case of letters outside
quotes have programs that differ in the case of names, and show the same text:
`Store.evaluate_recased`. -/

namespace Spreadsheet

open Column (capital)

/-! ### Items -/

theorem Text.upper_append (s t : String) : upper (s ++ t) = upper s ++ upper t := by
  rw [upper, String.toList_append, List.map_append, String.ofList_append, upper, upper]

/-- Letters name no row. -/
theorem Row.read?_of_isLetter {text : List Char} {c : Char} (hc : c ∈ text)
    (hletter : Column.isLetter c = true) : read? text = none := by
  have hdigit : ∀ digits : List Char, c ∈ digits → ¬ digits.all Numeral.isDigit = true :=
    fun digits hmem hall => Bool.false_ne_true <|
      (Token.isDigit_of_isLetter hletter).symm.trans (List.all_eq_true.mp hall c hmem)
  unfold read?
  rw [if_neg]
  rintro ⟨-, hall, -⟩
  split at hall
  · rcases List.mem_cons.mp hc with rfl | hc
    · cases hletter
    · exact hdigit _ hc hall
  · exact hdigit _ hc hall

theorem Row.read?_map_capital (text : List Char) : read? (text.map capital) = read? text := by
  by_cases h : ∃ c ∈ text, Column.isLetter c = true
  · obtain ⟨c, hc, hletter⟩ := h
    have hcapital := (Column.isLetter_capital c).trans hletter
    rw [read?_of_isLetter hc hletter, read?_of_isLetter (List.mem_map_of_mem hc) hcapital]
  · rw [Column.map_capital_eq fun c hc => Bool.eq_false_iff.mpr fun hl => h ⟨c, hc, hl⟩]

/-- **A cell is named in either case.** -/
theorem Address.named_upper {limits : Limits} {c r : String} {a : Address} :
    a.Named limits (Text.upper c) (Text.upper r) ↔ a.Named limits c r := by
  have hcolumn : Column.read (Text.upper c).toList = .ok a.column ↔
      Column.read c.toList = .ok a.column := by
    rw [Text.upper, String.toList_ofList, Column.read_map_capital]
  have hrow : Row.read? (Text.upper r).toList = Row.read? r.toList := by
    rw [Text.upper, String.toList_ofList, Row.read?_map_capital]
  constructor
  · rintro ⟨hc, hr, hin⟩
    exact ⟨hcolumn.mp hc, hrow ▸ hr, hin⟩
  · rintro ⟨hc, hr, hin⟩
    exact ⟨hcolumn.mpr hc, hrow.trans hr, hin⟩

namespace Token

variable {t : Token}

theorem upper_eq_leftParen : t.upper = leftParen ↔ t = leftParen := by
  cases t <;> simp [upper]

theorem upper_eq_colon : t.upper = colon ↔ t = colon := by
  cases t <;> simp [upper]

theorem upper_eq_column {d : String} :
    t.upper = column d ↔ ∃ c, t = column c ∧ Text.upper c = d := by
  cases t <;> simp [upper]

theorem upper_eq_row {s : String} : t.upper = row s ↔ ∃ r, t = row r ∧ Text.upper r = s := by
  cases t <;> simp [upper]

end Token

namespace Item

variable {limits : Limits} {m : Marker} {i : Item} {is : List Item} {ts us : List Token}

theorem head?_map_upper_paren :
    (us.map Token.upper).head? = some .leftParen ↔ us.head? = some .leftParen := by
  cases us <;> simp [Token.upper_eq_leftParen]

theorem joins_map_upper : Joins (us.map Token.upper) ↔ Joins us := by
  constructor
  · rintro ⟨d, s, vs, hus, hparen⟩
    obtain ⟨t, us, rfl, ht, hus⟩ := List.map_eq_cons_iff.mp hus
    obtain ⟨u, us, rfl, hu, hus⟩ := List.map_eq_cons_iff.mp hus
    obtain ⟨v, us, rfl, hv, rfl⟩ := List.map_eq_cons_iff.mp hus
    obtain ⟨c, rfl, -⟩ := Token.upper_eq_column.mp hu
    obtain ⟨r, rfl, -⟩ := Token.upper_eq_row.mp hv
    rw [Token.upper_eq_colon.mp ht]
    exact ⟨c, r, us, rfl, mt head?_map_upper_paren.mpr hparen⟩
  · rintro ⟨d, s, vs, rfl, hparen⟩
    exact ⟨_, _, _, rfl, mt head?_map_upper_paren.mp hparen⟩

theorem Stops.upper (h : i.Stops us) : (i.rename Text.upper).Stops (us.map Token.upper) := by
  cases i with
  | operand o =>
    cases o with
    | ref a => exact ⟨mt head?_map_upper_paren.mp h.1, mt joins_map_upper.mp h.2⟩
    | range r => exact mt head?_map_upper_paren.mp h
    | _ => exact trivial
  | _ => exact trivial

theorem Spells.upper (h : Spells limits i ts) :
    Spells limits (i.rename Text.upper) (ts.map Token.upper) := by
  cases h with
  | ref h => exact .ref (Address.named_upper.mpr h)
  | range ha hb => exact .range (Address.named_upper.mpr ha) (Address.named_upper.mpr hb)
  | callDigits c r =>
    rw [rename, Text.upper_append]
    exact .callDigits _ _
  | call n => exact .call _
  | callColumn c => exact .callColumn _
  | number x => exact .number x
  | text s => exact .text s
  | operator o => exact .operator o
  | leftParen => exact .leftParen
  | rightParen => exact .rightParen
  | comma => exact .comma

theorem Fails.upper (h : Fails limits m ts us) :
    Fails limits m (ts.map Token.upper) (us.map Token.upper) := by
  cases h with
  | name n hparen => exact .name _ (mt head?_map_upper_paren.mp hparen)
  | column c hrow hparen =>
    refine .column _ (fun s hs => ?_) (mt head?_map_upper_paren.mp hparen)
    rw [List.head?_map, Option.map_eq_some_iff] at hs
    obtain ⟨t, ht, hts⟩ := hs
    obtain ⟨r, rfl, -⟩ := Token.upper_eq_row.mp hts
    exact hrow r ht
  | ref h hparen hjoins =>
    exact .ref (fun a ha => h a (Address.named_upper.mp ha)) (mt head?_map_upper_paren.mp hparen)
      (mt joins_map_upper.mp hjoins)
  | range h hparen =>
    exact .range
      (fun a b ha hb => h a b (Address.named_upper.mp ha) (Address.named_upper.mp hb))
      (mt head?_map_upper_paren.mp hparen)
  | row r => exact .row _ _
  | colon => exact .colon _
  | unknown c => exact .unknown c _

theorem Reads.upper (h : Reads limits is ts) :
    Reads limits (is.map (rename Text.upper)) (ts.map Token.upper) := by
  induction h with
  | nil => exact .nil
  | item hi hstops _ ih =>
    rw [List.map_append]
    exact .item hi.upper hstops.upper ih
  | failure hm _ ih =>
    rw [List.map_append]
    exact .failure hm.upper ih

/-- **The items of tokens in upper case** are their items, with the names of functions in upper
case. -/
theorem ofTokens_map_upper (limits : Limits) (ts : List Token) :
    ofTokens limits (ts.map Token.upper) = (ofTokens limits ts).map (rename Text.upper) :=
  (reads_iff.mpr rfl).upper.ofTokens_eq

end Item

/-! ### Functions -/

theorem Text.capitals_capital (c : Char) : capitals (capital c) = capitals c := by
  by_cases hsmall : ('a' ≤ c && c ≤ 'z') = true
  · have hletter : Column.isLetter c = true := by rw [Column.isLetter, hsmall, Bool.or_true]
    obtain ⟨k, hk, hcapital⟩ := Column.exists_letter hletter
    have hc : capitals c = [capital c] := by
      rw [capital, if_pos hsmall]
      exact if_pos hsmall
    rw [hc, hcapital]
    exact (by decide : ∀ k < 26, capitals (Column.letter k) = [Column.letter k]) k hk
  · rw [capital, if_neg hsmall]

/-- **A function has its name in either case.** -/
theorem Function.named?_upper (name : String) : named? (Text.upper name) = named? name := by
  have hname : Text.capitalize (Text.upper name).toList = Text.capitalize name.toList := by
    rw [Text.upper, String.toList_ofList, Text.capitalize, List.flatMap_map, Text.capitalize]
    simp only [Text.capitals_capital]
  rw [named?, hname, named?]

/-! ### Formulas -/

section

variable {m : Type → Type} [Monad m] [LawfulMonad m] {source source' : String}

/-- Programs of formulas that differ in case are the same in upper case. -/
theorem Token.Recased.rename_ofSource (h : Token.Recased false source.toList source'.toList)
    (limits : Limits) : (Program.ofSource limits source).rename Text.upper =
      (Program.ofSource limits source').rename Text.upper := by
  simp only [Program.ofSource, Program.ofTokens, ← Program.ofItems_rename,
    ← Item.ofTokens_map_upper, h.map_upper_ofSource]

/-- **Formulas that differ in nothing but the case of letters outside quotes show the same text**,
on every sheet and whatever functions give that change. -/
theorem Store.evaluate_recased (s : Store) (volatile : Volatile → m Scalar)
    (source source' : String) (h : Token.Recased false source.toList source'.toList) :
    s.evaluate volatile source = s.evaluate volatile source' := by
  -- a program in upper case is evaluated as the program is
  have hupper : ∀ p : Program, (do
      let q ← Pass.visitAll s volatile {} (p.reads s)
      p.shown (q.source volatile)) = (do
      let q ← Pass.visitAll s volatile {} ((p.rename Text.upper).reads s)
      (p.rename Text.upper).shown (q.source volatile)) := by
    intro p
    simp only [Program.reads_rename, Program.shown_rename Function.named?_upper]
  unfold evaluate
  simp only
  rw [hupper, h.rename_ofSource, ← hupper]

end

/-- Names and columns in either case, one of them behind a number; the text in quotes keeps its own.
-/
theorem Store.evaluate_recased_concat :
    Token.Recased false "=concat(\"aB\",log10(a1),1e5)".toList
      "=CONCAT(\"aB\",Log10(A1),1E5)".toList ∧
    (Store.empty {}).evaluate (m := Id) (fun _ => .empty) "=concat(\"aB\",log10(a1),1e5)" =
      (Store.empty {}).evaluate (m := Id) (fun _ => .empty) "=CONCAT(\"aB\",Log10(A1),1E5)" := by
  have h : Token.Recased false "=concat(\"aB\",log10(a1),1e5)".toList
      "=CONCAT(\"aB\",Log10(A1),1E5)".toList := by decide
  exact ⟨h, Store.evaluate_recased _ _ _ _ h⟩

end Spreadsheet
