import Spreadsheet.Compile

/-! # The tokens of items

How tokens spell items, apart from the reading of them. `Item.Spelled` says which tokens spell which
items. Reading goes from left to right and takes a reference before a parenthesis for the name of a
function, so it finds the items that are spelled only where neighbours suit each other:
`Item.inPlace` says that an operand stands where one is to follow, and an operator, a comma or a
closing parenthesis behind an operand. Then reading finds what is spelled
(`Item.Spelled.ofTokens_eq`). -/

namespace Spreadsheet

/-- A column and a row name a cell of the sheet. -/
structure Address.Named (limits : Limits) (column row : String) (a : Address) : Prop where
  column : Column.read column.toList = .ok a.column
  row : Row.read? row.toList = some a.row
  inside : limits.contains a = true

/-- What stands at a place of a formula. -/
inductive Slot where
  /-- An operand is to follow. -/
  | operand
  /-- A call has just been opened. -/
  | arguments
  /-- An operand has just ended. -/
  | operator
  deriving DecidableEq

namespace Item

/-! ### Spelling -/

/-- The tokens that spell an item. -/
inductive Spells (limits : Limits) : Item → List Token → Prop
  | number (x : Float) : Spells limits (.operand (.number x)) [.number x]
  | text (s : String) : Spells limits (.operand (.text s)) [.text s]
  | ref {c r : String} {a : Address} (h : a.Named limits c r) :
    Spells limits (.operand (.ref a)) [.column c, .row r]
  | range {c r d s : String} {a b : Address} (ha : a.Named limits c r) (hb : b.Named limits d s) :
    Spells limits (.operand (.range (.spanning a b)))
      [.column c, .row r, .colon, .column d, .row s]
  | operator (o : Operator) : Spells limits (.operator o) [.operator o]
  | leftParen : Spells limits .leftParen [.leftParen]
  | rightParen : Spells limits .rightParen [.rightParen]
  | comma : Spells limits .comma [.comma]
  | call (n : String) : Spells limits (.call n) [.name n, .leftParen]
  | callDigits (c r : String) : Spells limits (.call (c ++ r)) [.column c, .row r, .leftParen]
  | callColumn (c : String) : Spells limits (.call c) [.column c, .leftParen]

/-- The tokens spell the items, one after the other. -/
inductive Spelled (limits : Limits) : List Item → List Token → Prop
  | nil : Spelled limits [] []
  | cons {i : Item} {is : List Item} {ts us : List Token} (hi : Spells limits i ts)
    (h : Spelled limits is us) : Spelled limits (i :: is) (ts ++ us)

/-- A colon and a reference follow: a reference in front of them is the first corner of a range. -/
def Joins (us : List Token) : Prop :=
  ∃ d s vs, us = .colon :: .column d :: .row s :: vs ∧ vs.head? ≠ some .leftParen

/-- An item does not run into the tokens behind it: a reference or a range is not the name of a
function, and a reference is not the first corner of a range. -/
def Stops : Item → List Token → Prop
  | operand (.ref _), us => us.head? ≠ some .leftParen ∧ ¬ Joins us
  | operand (.range _), us => us.head? ≠ some .leftParen
  | _, _ => True

/-! ### Neighbours -/

/-- What stands behind an item. -/
def behind : Item → Slot
  | operand _ | failure _ | rightParen => .operator
  | operator _ | leftParen | comma => .operand
  | call _ => .arguments

/-- Whether an item can stand at a place. A sign can stand anywhere. -/
def fits (s : Slot) : Item → Bool
  | operand _ | failure _ | leftParen | call _ => s ≠ .operator
  | operator o => s = .operator ∨ o = .add ∨ o = .subtract
  | comma => s = .operator
  | rightParen => s ≠ .operand

/-- Whether each of the items can stand behind the one before it, and the formula can end there. -/
def inPlace : Slot → List Item → Bool
  | s, [] => s = .operator
  | s, i :: is => i.fits s && inPlace i.behind is

theorem inPlace_cons (s : Slot) (i : Item) (is : List Item) :
    inPlace s (i :: is) = (i.fits s && inPlace i.behind is) := rfl

/-! ### Finding the items that tokens spell -/

section

variable {limits : Limits} {is : List Item} {i : Item} {ts us : List Token}

theorem resolve?_eq_some {c r : String} {a : Address} :
    resolve? limits c r = some a ↔ a.Named limits c r := by
  unfold resolve?
  constructor
  · intro h
    split at h
    · next row column hr hc =>
      split at h
      · next hin =>
        cases h
        exact ⟨hc, hr, hin⟩
      · cases h
    · cases h
  · intro h
    rw [h.row, h.column]
    simp [h.inside]

theorem Spelled.head?_ne_colon (h : Spelled limits is ts) : ts.head? ≠ some .colon := by
  cases h with
  | nil => simp
  | cons hi _ => cases hi <;> simp

/-- No item but an opening parenthesis begins with that token. -/
theorem Spelled.head?_leftParen (h : Spelled limits is ts) (hts : ts.head? = some .leftParen) :
    is.head? = some .leftParen := by
  cases h with
  | nil => simp at hts
  | cons hi _ => cases hi <;> simp_all

theorem reference?_eq_some_iff {a : Option Address} {rest : List Token} :
    reference? limits ts = some (a, rest) ↔ ∃ c r, ts = .column c :: .row r :: rest ∧
      a = resolve? limits c r ∧ rest.head? ≠ some .leftParen := by
  constructor
  · intro h
    unfold reference? at h
    split at h
    · cases h
    · next c r rest' hno =>
      simp only [Option.some.injEq, Prod.mk.injEq] at h
      obtain ⟨rfl, rfl⟩ := h
      refine ⟨c, r, rfl, rfl, fun hparen => ?_⟩
      obtain ⟨us, rfl⟩ := List.head?_eq_some_iff.mp hparen
      exact hno us rfl
    · cases h
  · rintro ⟨c, r, rfl, rfl, hrest⟩
    unfold reference?
    split
    · simp_all
    · simp_all
    · next hno => exact absurd rfl (hno c r rest)

/-- Behind a colon that does not make a range there is no reference. -/
theorem reference?_of_not_joins (h : ¬ Joins (.colon :: us)) : reference? limits us = none := by
  rw [Option.eq_none_iff_forall_ne_some]
  rintro ⟨b, vs⟩ hb
  obtain ⟨d, s, rfl, -, hvs⟩ := reference?_eq_some_iff.mp hb
  exact h ⟨d, s, vs, rfl, hvs⟩

theorem next_reference {c r : String} (hparen : us.head? ≠ some .leftParen) (hjoins : ¬ Joins us) :
    next limits (.column c) (.row r :: us) = (ofCell (resolve? limits c r), us) := by
  unfold next
  rw [reference?_eq_some_iff.mpr ⟨c, r, rfl, rfl, hparen⟩]
  cases us with
  | nil => rfl
  | cons u us =>
    cases u with
    | colon => simp only [reference?_of_not_joins hjoins]
    | _ => rfl

theorem next_range {c r d s : String} (hparen : us.head? ≠ some .leftParen) :
    next limits (.column c) (.row r :: .colon :: .column d :: .row s :: us) =
      (ofCorners (resolve? limits c r) (resolve? limits d s), us) := by
  unfold next
  rw [reference?_eq_some_iff.mpr ⟨c, r, rfl, rfl, by simp⟩]
  simp only [reference?_eq_some_iff.mpr ⟨d, s, rfl, rfl, hparen⟩]

/-- The tokens of an item are read as that item, if it does not run into what follows. -/
theorem Spells.next_eq (h : Spells limits i ts) (hstops : i.Stops us) :
    ∃ t rest, ts ++ us = t :: rest ∧ next limits t rest = (i, us) := by
  cases h with
  | @ref c r a h =>
    refine ⟨.column c, .row r :: us, rfl, ?_⟩
    rw [next_reference hstops.1 hstops.2, resolve?_eq_some.mpr h]
    rfl
  | @range c r d s a b ha hb =>
    refine ⟨.column c, .row r :: .colon :: .column d :: .row s :: us, rfl, ?_⟩
    rw [next_range hstops, resolve?_eq_some.mpr ha, resolve?_eq_some.mpr hb]
    rfl
  | _ => exact ⟨_, _, rfl, rfl⟩

theorem stops_of_head? (hcolon : us.head? ≠ some .colon)
    (hparen : ∀ o, i = .operand o → us.head? ≠ some .leftParen) : i.Stops us := by
  have hjoins : ¬ Joins us := by
    rintro ⟨d, s, vs, rfl, -⟩
    exact hcolon rfl
  cases i with
  | operand o =>
    cases o with
    | ref a => exact ⟨hparen _ rfl, hjoins⟩
    | range r => exact hparen _ rfl
    | _ => exact trivial
  | _ => exact trivial

/-- **Reading tokens finds the items that they spell**, if all items are in place. -/
theorem Spelled.ofTokens_eq {s : Slot} (h : Spelled limits is ts) (hs : inPlace s is = true) :
    ofTokens limits ts = is := by
  induction h generalizing s with
  | nil => exact ofTokens_nil limits
  | @cons i is ts us hi h ih =>
    rw [inPlace_cons, Bool.and_eq_true] at hs
    have hparen : ∀ o, i = .operand o → us.head? ≠ some .leftParen := by
      rintro o rfl hus
      cases is with
      | nil => cases h; simp at hus
      | cons j js =>
        have := h.head?_leftParen hus
        simp_all [inPlace_cons, behind, fits]
    obtain ⟨t, rest, hts, hnext⟩ := hi.next_eq (stops_of_head? h.head?_ne_colon hparen)
    rw [hts, ofTokens_cons, hnext, ih hs.2]

end

end Item

end Spreadsheet
