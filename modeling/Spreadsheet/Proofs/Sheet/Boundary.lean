import Mathlib.Data.List.TFAE
import Spreadsheet.Proofs.Csv.RoundTrip
import Spreadsheet.Proofs.Formula.Lexing
import Spreadsheet.Proofs.Formula.Spelling

/-! # The boundary of a sheet

Three parts of a sheet ask whether a cell lies within its limits: writing into a cell, reading a
reference in a formula, and reading delimited text. Main statement: `Store.accepts_tfae`, they draw
the same boundary. A formula names a cell by its text, and the number of the last row of all does
not fit into 32 bits when it is counted from one; that row lies within no limits.

* `Program.ofSource_a1`: the formula that is the text of an address refers to that cell, if the
  sheet has it.
* `Csv.OnlyField.ofText_eq`: reading a text with a single field is placing that field.
* `Csv.onlyField_placed`: there is such a text for every field and every place. -/

namespace Spreadsheet

/-! ### The text of an address -/

namespace Address

/-- The label of the column. -/
def label (a : Address) : String := String.ofList (Column.letters a.column)

/-- The number of the row. -/
def number (a : Address) : String := Numeral.text (a.row.toNat + 1)

variable {l : Limits} {a b : Address}

/-- **The text of an address names that cell only**, if the sheet has it. -/
theorem named_a1_iff : b.Named l a.label a.number ↔ b = a ∧ l.contains a = true := by
  have hcolumn : Column.read a.label.toList = .ok b.column ↔ a.column = b.column := by
    rw [label, String.toList_ofList, Column.read_letters, Except.ok.injEq]
  have hrow : Row.read? a.number.toList = some b.row ↔
      a.row.toNat + 1 = b.row.toNat + 1 ∧ b.row.toNat + 1 < UInt32.size := by
    rw [number, Numeral.toList_text, Row.read?_eq_some_iff (Numeral.digits_isDigit _),
      Numeral.value_digits]
  constructor
  · intro h
    have heq : b = a := toNat_inj.mp
      ⟨(Nat.succ.inj (hrow.mp h.row).1).symm, congrArg UInt16.toNat (hcolumn.mp h.column).symm⟩
    exact ⟨heq, heq ▸ h.inside⟩
  · rintro ⟨rfl, hin⟩
    refine ⟨hcolumn.mpr rfl, hrow.mpr ⟨rfl, ?_⟩, hin⟩
    -- the row is below the number of rows, which 32 bits hold
    have hlt : b.row < l.rows := by
      simp only [Limits.contains, Bool.and_eq_true, decide_eq_true_eq] at hin
      exact hin.1
    have := UInt32.lt_iff_toNat_lt.mp hlt
    have := l.rows.toNat_lt_size
    omega

theorem resolve?_a1 (l : Limits) (a : Address) :
    Item.resolve? l a.label a.number = if l.contains a = true then some a else none := by
  ext b
  rw [Item.resolve?_eq_some, named_a1_iff]
  by_cases hin : l.contains a = true
  · rw [if_pos hin, Option.some.injEq, and_iff_left hin, eq_comm]
  · rw [if_neg hin]
    simp [hin]

end Address

/-- The text of an address is a column and a row. -/
theorem Token.ofSource_a1 (a : Address) : ofSource a.a1 = [column a.label, row a.number] := by
  have hlabel : a.label.toList = Column.letters a.column := String.toList_ofList
  have hnumber : a.number.toList = Numeral.digits (a.row.toNat + 1) := Numeral.toList_text _
  have hl : (column a.label).Writable := by
    rw [Writable, hlabel]
    exact ⟨Column.letters_ne_nil _, Column.isLetter_of_mem_letters⟩
  have hd : (row a.number).Writable := by
    rw [Writable, hnumber]
    exact ⟨Numeral.digits_ne_nil _, Numeral.digits_isDigit _⟩
  have hend : ∀ c ∈ ([] : List Char).head?, Numeral.isDigit c = false := by simp
  obtain ⟨c, cs, hcs, hblank, hlexeme⟩ := lexeme_reference hl hd hend
  have hequals : c ≠ '=' := by
    rintro rfl
    cases hl.2 '=' (by rw [hcs]; exact List.mem_cons_self)
  have htext : a.a1.toList = c :: (cs ++ a.number.toList) := by
    rw [Address.a1, String.toList_ofList, ← hlabel, ← hnumber, hcs, List.cons_append]
  have hlast : ∀ d ∈ (c :: (cs ++ a.number.toList)).getLast?, Text.isBlank d = false := by
    obtain ⟨d, hd, hdblank⟩ := spelling_getLast? hd
    rw [← List.cons_append, List.getLast?_append, show a.number.toList.getLast? = some d from hd]
    rintro e ⟨⟩
    exact hdblank
  rw [ofSource, htext, body_eq_self hequals hblank hlast, ofText_cons hblank]
  rw [List.append_nil] at hlexeme
  rw [hlexeme, ofText_nil, List.append_nil]

/-- **The text of an address is the formula that refers to it**, if the sheet has the cell. -/
theorem Program.ofSource_a1 (l : Limits) (a : Address) : ofSource l a.a1 =
    if l.contains a = true then [.push (.ref a)] else [.failure .ref] := by
  have hitems : Item.ofTokens l [.column a.label, .row a.number] =
      [Item.ofCell (if l.contains a = true then some a else none)] := by
    have hnext : Item.next l (.column a.label) [.row a.number] =
        (Item.ofCell (Item.resolve? l a.label a.number), []) :=
      Item.next_reference (by simp) (by rintro ⟨d, s, vs, ⟨⟩, -⟩)
    rw [Item.ofTokens_cons, hnext, Address.resolve?_a1, Item.ofTokens_nil]
  rw [ofSource, Token.ofSource_a1, ofTokens, hitems]
  split
  · rfl
  · rfl

/-! ### Texts with a single field -/

namespace Csv

variable {d : Char} {cs field : List Char} {row column : Nat} {l : Limits}

/-- The text has the field in the given place, and no other field that is more than blanks. -/
def OnlyField (d : Char) (cs : List Char) (row column : Nat) (field : List Char) : Prop :=
  ∀ r c f, field? d cs r c = some f ↔ r = row ∧ c = column ∧ f = field

section

variable {α β : Type} {f : β → α × Nat → β} {xs : List α} {k n : Nat} {x : α}

theorem foldl_zipIdx_fixed (h : ∀ b m y, xs[m]? = some y → f b (y, k + m) = b) (b : β) :
    (xs.zipIdx k).foldl f b = b := by
  induction xs generalizing k with
  | nil => rfl
  | cons x xs ih =>
    have hx : f b (x, k) = b := h b 0 x rfl
    rw [List.zipIdx_cons, List.foldl_cons, hx]
    refine ih fun c m y hy => ?_
    rw [Nat.add_right_comm]
    exact h c (m + 1) y hy

/-- **A walk over numbered entries of which only one changes anything.** -/
theorem foldl_zipIdx_single (hx : xs[n]? = some x)
    (h : ∀ b m y, xs[m]? = some y → m ≠ n → f b (y, k + m) = b) (b : β) :
    (xs.zipIdx k).foldl f b = f b (x, k + n) := by
  induction xs generalizing k n b with
  | nil => cases hx
  | cons y ys ih =>
    rw [List.zipIdx_cons, List.foldl_cons]
    cases n with
    | zero =>
      obtain rfl : y = x := Option.some.inj hx
      refine foldl_zipIdx_fixed (fun c m z hz => ?_) _
      rw [Nat.add_right_comm]
      exact h c (m + 1) z hz (Nat.succ_ne_zero m)
    | succ n =>
      have hy : f b (y, k) = b := h b 0 y rfl (Nat.succ_ne_zero n).symm
      have hrest := ih (k := k + 1) (n := n) hx (fun c m z hz hm => ?_) b
      · rw [hy, hrest, Nat.add_right_comm]
        rfl
      · rw [Nat.add_right_comm]
        exact h c (m + 1) z hz (fun heq => hm (Nat.succ.inj heq))

end

theorem Import.place_of_blank {i : Import} (h : solid field = false) :
    i.place row column field = i :=
  if_pos (by simpa [solid] using h)

/-- **Reading a text with a single field is placing that field.** -/
theorem OnlyField.ofText_eq (h : OnlyField d cs row column field) (l : Limits) :
    Import.ofText d l cs = (⟨.empty l, 0⟩ : Import).place row column field := by
  -- any other field is blank, and a blank field changes nothing
  have hblank : ∀ (i : Import) r c line f, (linesOf cs)[r]? = some line →
      (pieces d line)[c]? = some f → ¬(r = row ∧ c = column) → i.place r c f = i := by
    intro i r c line f hline hf hne
    refine Import.place_of_blank ?_
    by_contra hsolid
    have hfield : field? d cs r c = some f := by
      rw [field?_eq_linesOf, hline, Option.bind_some]
      exact Option.filter_eq_some_iff.mpr ⟨hf, by simpa using hsolid⟩
    exact hne ⟨((h r c f).mp hfield).1, ((h r c f).mp hfield).2.1⟩
  have hfield : field? d cs row column = some field := (h _ _ _).mpr ⟨rfl, rfl, rfl⟩
  rw [field?_eq_linesOf] at hfield
  obtain ⟨line, hline, hfield⟩ := Option.bind_eq_some_iff.mp hfield
  have hpiece := (Option.filter_eq_some_iff.mp hfield).1
  rw [Import.ofText, foldl_zipIdx_single hline, Nat.zero_add, Import.line,
    foldl_zipIdx_single hpiece, Nat.zero_add]
  · intro i c f hf hc
    rw [Nat.zero_add]
    exact hblank i row c line f hline hf fun hat => hc hat.2
  · intro i r line' hline' hr
    refine foldl_zipIdx_fixed (fun j c f hf => ?_) i
    rw [Nat.zero_add, Nat.zero_add]
    exact hblank j r c line' f hline' hf fun hat => hr hat.1

/-- Empty lines and empty fields in front of a field. -/
def placed (d : Char) (t : Terminator) (row column : Nat) (field : List Char) : List Char :=
  (List.replicate row t.text.toList).flatten ++ (List.replicate column d ++ field)

theorem intercalate_replicate_nil (sep l : List Char) (n : Nat) :
    List.intercalate sep (List.replicate n [] ++ [l]) = (List.replicate n sep).flatten ++ l := by
  rw [List.intercalate_concat, List.flatMap_replicate, List.nil_append]

theorem placed_eq_intercalate (d : Char) (t : Terminator) (row column : Nat) (field : List Char) :
    placed d t row column field = List.intercalate t.text.toList
      (List.replicate row [] ++ [List.replicate column d ++ field]) :=
  (intercalate_replicate_nil _ _ _).symm

theorem getElem?_replicate_concat {α : Type} {z x y : α} {n m : Nat} :
    (List.replicate n z ++ [x])[m]? = some y ↔ m < n ∧ y = z ∨ m = n ∧ y = x := by
  rcases Nat.lt_trichotomy m n with h | rfl | h
  · rw [List.getElem?_append_left (by simpa using h), List.getElem?_replicate, if_pos h]
    simp [h, Nat.ne_of_lt h, eq_comm]
  · simp [eq_comm]
  · rw [List.getElem?_eq_none (by simp; omega)]
    simp
    omega

/-- **Every field has a text for every place**, if it has more than blanks, no delimiter and no line
feed, and does not end with a carriage return. -/
theorem onlyField_placed (hd : d ≠ '\n') (hsolid : solid field = true) (hdelimiter : d ∉ field)
    (hnewline : '\n' ∉ field) (hreturn : field.getLast? ≠ some '\r') (t : Terminator)
    (row column : Nat) : OnlyField d (placed d t row column field) row column field := by
  have hne : field ≠ [] := by
    rintro rfl
    cases hsolid
  have hmem : ∀ c ≠ d, c ∉ field → c ∉ List.replicate column d ++ field := by
    intro c hc hfield hmem
    rcases List.mem_append.mp hmem with hmem | hmem
    · exact hc (List.eq_of_mem_replicate hmem)
    · exact hfield hmem
  have hlines : (pieces '\n' (placed d t row column field)).map withoutReturn =
      List.replicate row [] ++ [List.replicate column d ++ field] := by
    rw [placed_eq_intercalate, map_withoutReturn_pieces]
    · rw [withoutReturn_append _ hne, withoutReturn_of_ne hreturn]
      split
      · rw [List.map_replicate]
        rfl
      · rfl
    · intro line hline
      rcases List.mem_append.mp hline with hline | hline
      · rw [List.eq_of_mem_replicate hline]
        exact List.not_mem_nil
      · rw [List.mem_singleton.mp hline]
        exact hmem '\n' hd.symm hnewline
  have hline : List.replicate column d ++ field =
      List.intercalate [d] (List.replicate column [] ++ [field]) := by
    rw [intercalate_replicate_nil, List.flatten_replicate_singleton]
  have hfields : ∀ c f, fieldOf? d (List.replicate column d ++ field) c = some f ↔
      c = column ∧ f = field := by
    intro c f
    rw [hline, fieldOf?_intercalate, Option.filter_eq_some_iff, getElem?_replicate_concat]
    · constructor
      · rintro ⟨⟨-, rfl⟩ | hf, hf'⟩
        · cases hf'
        · exact hf
      · rintro ⟨rfl, rfl⟩
        exact ⟨Or.inr ⟨rfl, rfl⟩, hsolid⟩
    · intro f hf
      rcases List.mem_append.mp hf with hf | hf
      · rw [List.eq_of_mem_replicate hf]
        exact List.not_mem_nil
      · rw [List.mem_singleton.mp hf]
        exact hdelimiter
  intro r c f
  rw [field?, hlines, Option.bind_eq_some_iff]
  simp only [getElem?_replicate_concat]
  constructor
  · rintro ⟨line, ⟨-, rfl⟩ | ⟨rfl, rfl⟩, hf⟩
    · rw [fieldOf?_nil] at hf
      cases hf
    · exact ⟨rfl, (hfields c f).mp hf⟩
  · rintro ⟨rfl, hf⟩
    exact ⟨_, Or.inr ⟨rfl, rfl⟩, (hfields c f).mpr hf⟩

end Csv

/-! ### The boundary -/

section

open Csv

variable {d : Char} {cs field : List Char} {a : Address}

theorem Csv.OnlyField.get?_ofText (h : OnlyField d cs a.row.toNat a.column.toNat field)
    (l : Limits) (b : Address) : (Import.ofText d l cs).store.get? b =
      if l.contains a = true ∧ b = a then some (String.ofList field) else none := by
  have hfield : ∀ f, field? d cs b.row.toNat b.column.toNat = some f ↔ b = a ∧ f = field :=
    fun f => by rw [h, ← and_assoc, Address.toNat_inj]
  rw [Import.get?_ofText]
  by_cases hb : b = a
  · subst hb
    rw [(hfield field).mpr ⟨rfl, rfl⟩]
    simp
  · have hnone : field? d cs b.row.toNat b.column.toNat = none :=
      Option.eq_none_iff_forall_ne_some.mpr fun f hf => hb ((hfield f).mp hf).1
    simp [hb, hnone]

/-- A single field is dropped outside the sheet. -/
theorem Csv.OnlyField.dropped_ofText (h : OnlyField d cs a.row.toNat a.column.toNat field)
    (l : Limits) : (Import.ofText d l cs).dropped = if l.contains a = true then 0 else 1 := by
  have hsolid : solid field = true :=
    (field?_eq_some ((h a.row.toNat a.column.toNat field).mpr ⟨rfl, rfl, rfl⟩)).1
  have hfield : field.all Text.isBlank = false := by simpa [solid] using hsolid
  rw [h.ofText_eq]
  cases hin : l.contains a with
  | true =>
    obtain ⟨s, hs⟩ := Store.exists_set (s := .empty l) hin (String.ofList field)
    simp [Import.place, hfield, Address.at?_toNat, hs]
  | false =>
    obtain ⟨e, he⟩ := Store.set_of_not_contains (s := .empty l) (t := String.ofList field) hin
    simp [Import.place, hfield, Address.at?_toNat, he]

/-- **A cell is accepted for writing, as a reference of a formula and from delimited text within the
same limits.** A refused reference is a failure, and a refused field is counted. -/
theorem Store.accepts_tfae (s : Store) (t : String)
    (h : OnlyField d cs a.row.toNat a.column.toNat field) :
    [s.limits.contains a = true,
      ∃ s', s.set a t = .ok s',
      Program.ofSource s.limits a.a1 = [.push (.ref a)],
      (Import.ofText d s.limits cs).store.get? a = some (String.ofList field)].TFAE ∧
    (s.limits.contains a = true →
      (∀ b, (Import.ofText d s.limits cs).store.get? b =
        if b = a then some (String.ofList field) else none) ∧
      (Import.ofText d s.limits cs).dropped = 0) ∧
    (s.limits.contains a = false →
      Program.ofSource s.limits a.a1 = [.failure .ref] ∧
      (∀ b, (Import.ofText d s.limits cs).store.get? b = none) ∧
      (Import.ofText d s.limits cs).dropped = 1) := by
  rw [Program.ofSource_a1, h.dropped_ofText]
  simp only [h.get?_ofText]
  refine ⟨?_, fun hin => ?_, fun hout => ?_⟩
  · tfae_have 1 → 2 := fun hin => exists_set hin t
    tfae_have 2 → 1 := by
      rintro ⟨s', hs'⟩
      by_contra hout
      obtain ⟨e, he⟩ := set_of_not_contains (t := t) (Bool.eq_false_iff.mpr hout)
      rw [he] at hs'
      cases hs'
    tfae_have 1 ↔ 3 := by
      split
      · next hin => simp only [hin]
      · next hout => simp [hout]
    tfae_have 1 ↔ 4 := by simp
    tfae_finish
  · simp [hin]
  · simp [hout]

/-- The last cell of a small sheet is accepted, and the last row of all is not, even by a sheet with
as many rows as there can be. -/
theorem Store.accepts_last : Program.ofSource ⟨2, 3⟩ (Address.mk 1 2).a1 = [.push (.ref ⟨1, 2⟩)] ∧
    Program.ofSource ⟨4294967295, 1⟩ (Address.mk 4294967295 0).a1 = [.failure .ref] ∧
    (Import.ofText ',' ⟨4294967295, 1⟩ (placed ',' .lf 4294967295 0 ['7'])).dropped = 1 := by
  have hplaced : ∀ t row column, OnlyField ',' (placed ',' t row column ['7']) row column ['7'] :=
    onlyField_placed (by decide) (by decide) (by decide) (by decide) (by decide)
  have hin := accepts_tfae (a := ⟨1, 2⟩) (.empty ⟨2, 3⟩) "x" (hplaced .crlf 1 2)
  have hout := accepts_tfae (a := ⟨4294967295, 0⟩) (.empty ⟨4294967295, 1⟩) "x"
    (hplaced .lf 4294967295 0)
  exact ⟨(hin.1.out 0 2).mp (by decide), (hout.2.2 (by decide)).1, (hout.2.2 (by decide)).2.2⟩

end

end Spreadsheet
