import Mathlib
import Spreadsheet.Proofs.Formula.Words
import Spreadsheet.Proofs.Number.ReadBack

/-! # The text of a program

A program is written with a space between two instructions, and texts in it may have spaces, quotes
and whatever else the other instructions are written with. The text still determines the program,
up to a range of one cell, which is written as that cell: `Program.ofSource_written_eq_iff`.

* `Instruction.ofWord?` reads a word, an instruction that is no text. What is written with fixed
  characters comes first, then calls, which have a slash, then numbers, then cells and ranges.
* `Instruction.readFirst?` reads the first instruction of a text: what is in quotes, or else what
  stands before the first space. `Instruction.readFirst?_written`: it finds what is written, if the
  instruction is `Instruction.Legible`, as those of all formulas are.
* `Program.reduced_eq_of_written`: so does reading one instruction after the other. -/

namespace Spreadsheet

/-- The operand with a reference in place of a range of one cell. -/
def Operand.reduced : Operand → Operand
  | range r => if r.first = r.last then ref r.first else range r
  | o => o

theorem Operand.written_reduced (o : Operand) : o.reduced.written = o.written := by
  cases o with
  | range r =>
    show (if r.first = r.last then ref r.first else range r).written = r.a1
    split
    · next h => exact (if_pos h).symm
    · rfl
  | _ => rfl

namespace Instruction

/-- The instruction with a reference in place of a range of one cell. -/
def reduced : Instruction → Instruction
  | push o => push o.reduced
  | i => i

theorem written_reduced (i : Instruction) : i.reduced.written = i.written := by
  cases i with
  | push o => exact o.written_reduced
  | _ => rfl

/-- The instruction can be read from its text: the row of a cell has a number that 32 bits hold, and
the name of a call is a name. -/
def Legible : Instruction → Prop
  | push (.ref a) => a.row.toNat < 4294967295
  | push (.range r) => r.last.row.toNat < 4294967295
  | call name _ => IsName name
  | _ => True

/-! ### Words -/

/-- The instructions that are written with fixed characters. -/
def fixed : List Instruction :=
  .negate :: (Operator.all.map .operator ++ [Marker.cycle, .name, .ref, .error].map .failure)

/-- The instruction that a word writes, other than a text. -/
def ofWord? (w : String) : Option Instruction :=
  match fixed.find? (·.written = w) with
  | some i => some i
  | none =>
    if '/' ∈ w.toList then
      some (.call (String.ofList (w.toList.takeWhile (· ≠ '/')))
        (Numeral.value (w.toList.dropWhile (· ≠ '/')).tail))
    else
      match Number.ofText? w with
      | some x => some (.push (.number x))
      | none =>
        match Range.read w with
        | .ok r => some (.push (Operand.range r).reduced)
        | .error _ => none

theorem ofWord?_fixed {i : Instruction} (h : i ∈ fixed) : ofWord? i.written = some i := by
  have hfind : ∀ i ∈ fixed, fixed.find? (·.written = i.written) = some i := by decide
  rw [ofWord?, hfind i h]

/-- A word without something that all fixed words have is none of them. -/
theorem find?_fixed {P : String → Prop} (hfixed : ∀ i ∈ fixed, P i.written) {w : String}
    (hw : ¬P w) : fixed.find? (·.written = w) = none := by
  rw [List.find?_eq_none]
  intro i hi heq
  rw [decide_eq_true_eq] at heq
  exact hw (heq ▸ hfixed i hi)

/-- The characters that words are written with if they are not fixed, apart from the slash of a
call. -/
def IsPlain (c : Char) : Prop :=
  Column.isLetter c = true ∨ Numeral.isDigit c = true ∨ c ∈ ['.', '-', ':']

theorem IsPlain.ne {c : Char} (h : IsPlain c) : c ≠ '/' ∧ c ≠ ' ' ∧ c ≠ '"' := by
  unfold IsPlain at h
  refine ⟨?_, ?_, ?_⟩
  · rintro rfl
    revert h
    decide
  · rintro rfl
    revert h
    decide
  · rintro rfl
    revert h
    decide

theorem isPlain_text {x : Float} : ∀ c ∈ (Number.text x).toList, IsPlain c := by
  intro c hc
  rcases Number.mem_text hc with h | h | rfl | rfl
  · exact Or.inl h
  · exact Or.inr (Or.inl h)
  · exact Or.inr (Or.inr (by decide))
  · exact Or.inr (Or.inr (by decide))

theorem isPlain_of_isAlphanumeric {cs : List Char} (h : Address.IsAlphanumeric cs) :
    ∀ c ∈ cs, IsPlain c := fun c hc => (h c hc).imp_right Or.inl

theorem isPlain_a1 {r : Range} : ∀ c ∈ r.a1.toList, IsPlain c := by
  have hcorner : ∀ a : Address, ∀ c ∈ a.a1.toList, IsPlain c := fun a =>
    isPlain_of_isAlphanumeric (Address.isAlphanumeric_a1 a)
  unfold Range.a1
  split
  · exact hcorner r.first
  · rw [Range.join_eq_ofList, String.toList_ofList]
    intro c hc
    rcases List.mem_append.mp hc with hc | hc
    · exact hcorner _ c hc
    · rcases List.mem_cons.mp hc with rfl | hc
      · exact Or.inr (Or.inr (by decide))
      · exact hcorner _ c hc

/-- The text of a range begins with a letter. -/
theorem exists_a1 (r : Range) :
    ∃ c cs, r.a1.toList = c :: cs ∧ Column.isLetter c = true := by
  have hcell : ∃ c cs, r.first.a1.toList = c :: cs ∧ Column.isLetter c = true := by
    rw [Address.a1, String.toList_ofList]
    cases hletters : Column.letters r.first.column with
    | nil => exact absurd hletters (Column.letters_ne_nil _)
    | cons c cs =>
      exact ⟨c, _, rfl, Column.isLetter_of_mem_letters c (hletters ▸ List.mem_cons_self)⟩
  obtain ⟨c, cs, hcs, hletter⟩ := hcell
  unfold Range.a1
  split
  · exact ⟨c, cs, hcs, hletter⟩
  · exact ⟨c, _, by rw [Range.join_eq_ofList, String.toList_ofList, hcs, List.cons_append], hletter⟩

theorem ofWord?_call {name : String} (h : IsName name) (count : Nat) :
    ofWord? (call name count).written = some (call name count) := by
  obtain ⟨hne, hname⟩ := h
  have hslash : ∀ c ∈ name.toList, c ≠ '/' := fun c hc =>
    (isPlain_of_isAlphanumeric hname c hc).ne.1
  have hword : (call name count).written.toList =
      name.toList ++ '/' :: Numeral.digits count := by
    rw [written, String.toList_append, String.toList_append, Numeral.toList_text, List.append_assoc]
    rfl
  have hmem : '/' ∈ (call name count).written.toList := by simp [hword]
  -- of the fixed words only the sign of a division has a slash, and it begins with it
  have hfind : fixed.find? (·.written = (call name count).written) = none := by
    refine find?_fixed (P := fun w => '/' ∈ w.toList → w.toList.head? = some '/') (by decide)
      fun h => ?_
    have hhead := h hmem
    rw [hword, List.head?_append_of_ne_nil _ hne] at hhead
    exact hslash '/' (List.mem_of_head? hhead) rfl
  have htake : (call name count).written.toList.takeWhile (· ≠ '/') = name.toList := by
    rw [hword]
    exact List.takeWhile_append_stop (by simpa using hslash) (by simp)
  have hdrop : (call name count).written.toList.dropWhile (· ≠ '/') =
      '/' :: Numeral.digits count := by
    rw [hword]
    exact List.dropWhile_append_stop (by simpa using hslash) (by simp)
  simp only [ofWord?, hfind, if_pos hmem, htake, hdrop, List.tail_cons, String.ofList_toList,
    Numeral.value_digits]

theorem ofWord?_number (x : Float) : ofWord? (Number.text x) = some (push (.number x)) := by
  have hfixed : ∀ i ∈ fixed, Number.ofText? i.written = none := by decide
  have hfind : fixed.find? (·.written = Number.text x) = none :=
    find?_fixed (P := fun w => Number.ofText? w = none) hfixed (by simp [Number.ofText?_text])
  have hslash : '/' ∉ (Number.text x).toList := fun hc => (isPlain_text _ hc).ne.1 rfl
  simp only [ofWord?, hfind, if_neg hslash, Number.ofText?_text]

/-- The text of a range is not the text of a number. -/
theorem ofText?_a1 {r : Range} (h : (Range.read r.a1).isOk = true) :
    Number.ofText? r.a1 = none := by
  have hnone : ∀ s ∈ ["NaN", "-inf", "inf"], r.a1 ≠ s := by
    have herror : ∀ s ∈ ["NaN", "-inf", "inf"], (Range.read s).isOk = false := by decide
    rintro s hs rfl
    exact Bool.false_ne_true ((herror _ hs).symm.trans h)
  obtain ⟨c, cs, hcs, hletter⟩ := exists_a1 r
  have hsign : c ∉ ['-', '+', '.'] := by
    intro hc
    simp only [List.mem_cons, List.not_mem_nil, or_false] at hc
    rcases hc with rfl | rfl | rfl <;> cases hletter
  rw [Number.ofText?, if_neg (hnone _ (by decide)), if_neg (hnone _ (by decide)),
    if_neg (hnone _ (by decide))]
  exact Number.read?_eq_none hcs (Token.isBlank_of_isLetter hletter)
    (Token.isDigit_of_isLetter hletter) hsign

theorem ofWord?_range {r : Range} (h : r.last.row.toNat < 4294967295) :
    ofWord? r.a1 = some (push (Operand.range r).reduced) := by
  have hread : Range.read r.a1 = .ok r := (Range.read_a1_eq_ok_iff r).mpr h
  have hok : (Range.read r.a1).isOk = true := by
    rw [hread]
    rfl
  have hfixed : ∀ i ∈ fixed, (Range.read i.written).isOk = false := by decide
  have hfind : fixed.find? (·.written = r.a1) = none :=
    find?_fixed (P := fun w => (Range.read w).isOk = false) hfixed (by simp [hok])
  have hslash : '/' ∉ r.a1.toList := fun hc => (isPlain_a1 _ hc).ne.1 rfl
  simp only [ofWord?, hfind, if_neg hslash, ofText?_a1 hok, hread]

/-! ### The first instruction of a text -/

/-- The first instruction of a text, and what follows it. -/
def readFirst? : List Char → Option (Instruction × List Char)
  | '"' :: rest =>
    some (.push (.text (String.ofList (Token.unquote rest).1)), (Token.unquote rest).2)
  | cs => (ofWord? (String.ofList (cs.takeWhile (· ≠ ' ')))).map (·, cs.dropWhile (· ≠ ' '))

/-- A text without spaces and quotes. -/
def IsWord (w : String) : Prop := ∀ c ∈ w.toList, c ≠ ' ' ∧ c ≠ '"'

variable {rest : List Char}

/-- A word is read up to the space behind it. -/
theorem readFirst?_word {w : String} {i : Instruction} (hw : IsWord w) (hi : ofWord? w = some i)
    (hrest : ∀ c ∈ rest.head?, c = ' ') : readFirst? (w.toList ++ rest) = some (i, rest) := by
  have hquote : (w.toList ++ rest).head? ≠ some '"' := by
    intro hhead
    cases hcs : w.toList with
    | nil =>
      rw [hcs, List.nil_append] at hhead
      exact absurd (hrest _ hhead) (by decide)
    | cons c cs =>
      rw [hcs, List.cons_append, List.head?_cons] at hhead
      cases hhead
      exact (hw '"' (hcs ▸ List.mem_cons_self)).2 rfl
  have hstop : ∀ c ∈ rest.head?, decide (c ≠ ' ') = false := fun c hc => by simp [hrest c hc]
  have htake : (w.toList ++ rest).takeWhile (· ≠ ' ') = w.toList :=
    List.takeWhile_append_stop (fun c hc => by simpa using (hw c hc).1) hstop
  have hdrop : (w.toList ++ rest).dropWhile (· ≠ ' ') = rest :=
    List.dropWhile_append_stop (fun c hc => by simpa using (hw c hc).1) hstop
  unfold readFirst?
  split
  · next heq =>
    rw [heq] at hquote
    exact absurd rfl hquote
  · rw [htake, hdrop, String.ofList_toList, hi, Option.map_some]

/-- **The first instruction is read as it was written.** -/
theorem readFirst?_written {i : Instruction} (hi : i.Legible) (hrest : ∀ c ∈ rest.head?, c = ' ') :
    readFirst? (i.written.toList ++ rest) = some (i.reduced, rest) := by
  have hfixed : ∀ i ∈ fixed, IsWord i.written := by
    have hall : ∀ i ∈ fixed, i.written.toList.all (fun c => c ≠ ' ' ∧ c ≠ '"') = true := by decide
    exact fun i hi c hc => by simpa using List.all_eq_true.mp (hall i hi) c hc
  cases i with
  | operator o =>
    have hmem : operator o ∈ fixed :=
      List.mem_cons_of_mem _ (List.mem_append_left _ (List.mem_map_of_mem (Operator.mem_all o)))
    exact readFirst?_word (hfixed _ hmem) (ofWord?_fixed hmem) hrest
  | negate =>
    exact readFirst?_word (hfixed _ List.mem_cons_self) (ofWord?_fixed List.mem_cons_self) hrest
  | failure m =>
    have hmem : failure m ∈ fixed := by cases m <;> decide
    exact readFirst?_word (hfixed _ hmem) (ofWord?_fixed hmem) hrest
  | call name count =>
    refine readFirst?_word (fun c hc => ?_) (ofWord?_call hi count) hrest
    rw [written, String.toList_append, String.toList_append, Numeral.toList_text] at hc
    rcases List.mem_append.mp hc with hc | hc
    · rcases List.mem_append.mp hc with hc | hc
      · exact (isPlain_of_isAlphanumeric hi.2 c hc).ne.2
      · obtain rfl := List.mem_singleton.mp hc
        decide
    · have hplain : IsPlain c := Or.inr (Or.inl (Numeral.digits_isDigit _ c hc))
      exact hplain.ne.2
  | push o =>
    cases o with
    | number x =>
      exact readFirst?_word (fun c hc => (isPlain_text c hc).ne.2) (ofWord?_number x) hrest
    | text s =>
      have hquote : rest.head? ≠ some '"' := fun hc => absurd (hrest _ hc) (by decide)
      have hwritten : (push (.text s)).written.toList ++ rest =
          '"' :: (Token.doubleQuotes s.toList ++ '"' :: rest) := by
        rw [written, Operand.written, String.toList_ofList, Token.quote, List.cons_append,
          List.append_assoc]
        rfl
      rw [hwritten, readFirst?, Token.unquote_doubleQuotes hquote, String.ofList_toList]
      rfl
    | ref a =>
      have hsingle : (Range.single a).a1 = a.a1 := if_pos rfl
      have hword := ofWord?_range (r := .single a) hi
      have hreduced : (Operand.range (.single a)).reduced = .ref a := if_pos rfl
      rw [hsingle, hreduced] at hword
      have hplain : ∀ c ∈ a.a1.toList, IsPlain c :=
        isPlain_of_isAlphanumeric (Address.isAlphanumeric_a1 a)
      exact readFirst?_word (fun c hc => (hplain c hc).ne.2) hword hrest
    | range r =>
      exact readFirst?_word (fun c hc => (isPlain_a1 c hc).ne.2) (ofWord?_range hi) hrest

end Instruction

/-! ### Whole programs -/

namespace Program

variable {p q : Program}

/-- The program with references in place of ranges of one cell. -/
def reduced (p : Program) : Program := p.map Instruction.reduced

theorem written_reduced (p : Program) : p.reduced.written = p.written := by
  rw [written, reduced, List.map_map]
  exact congrArg _ (List.map_congr_left fun i _ => i.written_reduced)

/-- The text of a program behind a space, in front of every instruction. -/
def spaced (p : Program) : List Char := p.flatMap fun i => ' ' :: i.written.toList

theorem toList_written_cons (i : Instruction) (p : Program) :
    (written (i :: p)).toList = i.written.toList ++ spaced p := by
  induction p generalizing i with
  | nil =>
    rw [written, List.map_singleton, String.intercalate_singleton]
    exact (List.append_nil _).symm
  | cons j p ih =>
    have hnext : (written (j :: p)).toList = j.written.toList ++ spaced p := ih j
    have hcons : written (i :: j :: p) = i.written ++ " " ++ written (j :: p) := by
      unfold written
      rw [List.map_cons, String.intercalate_cons_of_ne_nil (by simp)]
    rw [hcons, String.toList_append, String.toList_append, hnext, List.append_assoc]
    rfl

/-- **Reading one instruction after the other finds what is written.** -/
theorem reduced_eq_of_spaced (hp : ∀ i ∈ p, i.Legible) (hq : ∀ i ∈ q, i.Legible)
    (h : p.spaced = q.spaced) : p.reduced = q.reduced := by
  have hspace : ∀ p : Program, ∀ c ∈ p.spaced.head?, c = ' ' := by
    rintro (_ | ⟨i, p⟩) c hc
    · cases hc
    · cases hc
      rfl
  induction p generalizing q with
  | nil =>
    cases q with
    | nil => rfl
    | cons j q => cases h
  | cons i p ih =>
    cases q with
    | nil => cases h
    | cons j q =>
      have hfirst : i.written.toList ++ spaced p = j.written.toList ++ spaced q :=
        (List.cons.inj h).2
      have hread := Instruction.readFirst?_written (hp i List.mem_cons_self) (hspace p)
      rw [hfirst, Instruction.readFirst?_written (hq j List.mem_cons_self) (hspace q)] at hread
      obtain ⟨hij, hrest⟩ := Prod.mk.inj (Option.some.inj hread)
      have htail := ih (fun k hk => hp k (List.mem_cons_of_mem i hk))
        (fun k hk => hq k (List.mem_cons_of_mem j hk)) hrest.symm
      rw [reduced, reduced, List.map_cons, List.map_cons, hij]
      exact congrArg _ htail

theorem reduced_eq_of_written (hp : ∀ i ∈ p, i.Legible) (hq : ∀ i ∈ q, i.Legible)
    (h : p.written = q.written) : p.reduced = q.reduced := by
  -- no instruction is written as the empty text
  have hempty : ∀ (i : Instruction) (p : Program), i.Legible → written (i :: p) ≠ "" := by
    intro i p hi hwritten
    have htext := toList_written_cons i p
    rw [hwritten] at htext
    have hnil : i.written.toList = [] := (List.append_eq_nil_iff.mp htext.symm).1
    have hread : Instruction.readFirst? (i.written.toList ++ []) = some (i.reduced, []) :=
      Instruction.readFirst?_written hi (by simp)
    have hnone : Instruction.readFirst? ([] ++ []) = none := rfl
    rw [hnil, hnone] at hread
    cases hread
  cases p with
  | nil =>
    cases q with
    | nil => rfl
    | cons j q => exact absurd h.symm (hempty j q (hq j List.mem_cons_self))
  | cons i p =>
    cases q with
    | nil => exact absurd h (hempty i p (hp i List.mem_cons_self))
    | cons j q =>
      refine reduced_eq_of_spaced hp hq (congrArg (' ' :: ·) ?_)
      show i.written.toList ++ spaced p = j.written.toList ++ spaced q
      rw [← toList_written_cons, ← toList_written_cons, h]

/-- The program of a formula can be read from its text. -/
theorem legible_of_mem_ofSource {l : Limits} {source : String} :
    ∀ i ∈ ofSource l source, i.Legible := by
  intro i hi
  have hrow : ∀ a : Address, l.contains a = true → a.row.toNat < 4294967295 := by
    intro a ha
    simp only [Limits.contains, Bool.and_eq_true, decide_eq_true_eq] at ha
    have hlt := UInt32.lt_iff_toNat_lt.mp ha.1
    have hrows := l.rows.toNat_lt_size
    simp only [UInt32.size] at hrows
    omega
  cases i with
  | push o =>
    have hwithin : o.Within l := within_of_push hi
    cases o with
    | ref a => exact hrow a hwithin
    | range r => exact hrow r.last hwithin.2
    | number x => trivial
    | text s => trivial
  | call name count => exact isName_of_call hi
  | operator o => trivial
  | negate => trivial
  | failure m => trivial

/-- **The text of a program determines the program**, up to ranges of one cell: two formulas have
programs with the same text exactly if the programs are the same with references in place of such
ranges, whatever the formulas and the limits of their sheets are. -/
theorem ofSource_written_eq_iff (l l' : Limits) (source source' : String) :
    (ofSource l source).written = (ofSource l' source').written ↔
      (ofSource l source).reduced = (ofSource l' source').reduced := by
  constructor
  · exact reduced_eq_of_written legible_of_mem_ofSource legible_of_mem_ofSource
  · intro h
    rw [← written_reduced, h, written_reduced]

/-- Texts that look like other instructions do not matter, and a range of one cell is written as the
cell. -/
example : written [.push (.text "2 +\""), .push (.range (.single ⟨0, 1⟩)), .operator .add] =
    "\"2 +\"\"\" B1 +" := by cbv

end Program

end Spreadsheet
