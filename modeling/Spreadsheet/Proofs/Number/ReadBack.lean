import Mathlib
import Spreadsheet.Proofs.Formula.Lexing
import Spreadsheet.Proofs.Number.Bits

/-! # Printed numbers are read back

The text of a finite double is a decimal without an exponent, and no blank stands in it.

* `Decimal.read?_plain`: such a decimal is read as one that stands for the same double.
* `read?_text`: the text of a finite double is read as the double.
* `ofText?_text`: with the three texts of the doubles that are not finite, which write no decimal,
  every double has a text of its own. -/

namespace Spreadsheet

namespace Decimal

open Numeral

/-- What begins neither with a digit nor with a sign or a point is no decimal. -/
theorem read?_cons_eq_none {c : Char} (hdigit : isDigit c = false) (hc : c ∉ ['-', '+', '.'])
    (cs : List Char) : read? (c :: cs) = none := by
  simp only [List.mem_cons, List.not_mem_nil, or_false, not_or] at hc
  have hsign : readSign (c :: cs) = (false, c :: cs) := by
    unfold readSign
    split
    · next heq => exact absurd (List.cons.inj heq).1 hc.1
    · next heq => exact absurd (List.cons.inj heq).1 hc.2.1
    · rfl
  have hsplit : splitPoint (c :: cs) = ([], [], c :: cs) := by
    have htail : (c :: cs).dropWhile isDigit = c :: cs := by
      rw [List.dropWhile_cons_of_neg (by simp [hdigit])]
    have hwhole : (c :: cs).takeWhile isDigit = [] := by
      rw [List.takeWhile_cons_of_neg (by simp [hdigit])]
    simp only [splitPoint, htail, hwhole]
    split
    · next heq => exact absurd (List.cons.inj heq).1 hc.2.2
    · rfl
  simp only [read?, hsign, hsplit, and_self, if_true]

theorem readSign_plain (d : Decimal) :
    readSign d.plain = (d.negative, plainSize d.digits d.exponent) := by
  unfold plain
  cases d.negative with
  | true => rfl
  | false =>
    obtain ⟨c, cs, hcs, hdigit⟩ := head?_plainSize d.digits d.exponent
    simp only [Bool.false_eq_true, if_false, hcs]
    unfold readSign
    split
    · next heq =>
      rw [(List.cons.inj heq).1] at hdigit
      cases hdigit
    · next heq =>
      rw [(List.cons.inj heq).1] at hdigit
      cases hdigit
    · rfl

/-- **A decimal without an exponent is read as the same number.** -/
theorem read?_plain (d : Decimal) :
    ∃ d', read? d.plain = some d' ∧ d'.toFloat = d.toFloat := by
  obtain ⟨whole, places, hsplit, hne, hfloat⟩ :=
    @splitPoint_plainSize [] d.negative d.digits d.exponent (by simp)
  rw [List.append_nil] at hsplit
  refine ⟨⟨d.negative, value (whole ++ places), -places.length⟩, ?_, hfloat⟩
  have hdigits : ¬(whole = [] ∧ places = []) := fun h => hne h.1
  simp only [read?, readSign_plain, hsplit, if_neg hdigits, readExponent?, Option.map_some,
    Int.zero_sub]

/-- The characters of a decimal without an exponent. -/
theorem mem_plain {d : Decimal} {c : Char} (h : c ∈ d.plain) :
    isDigit c = true ∨ c = '.' ∨ c = '-' := by
  unfold plain at h
  split at h
  · rcases List.mem_cons.mp h with h | h
    · exact Or.inr (Or.inr h)
    · exact (mem_plainSize h).imp_right Or.inl
  · exact (mem_plainSize h).imp_right Or.inl

theorem isBlank_of_mem_plain {d : Decimal} {c : Char} (h : c ∈ d.plain) :
    Text.isBlank c = false := by
  rcases mem_plain h with h | rfl | rfl
  · exact Token.isBlank_of_isDigit h
  · rfl
  · rfl

end Decimal

namespace Number

variable {x : Float}

/-- What begins like no decimal is read as no number. -/
theorem read?_eq_none {s : String} {c : Char} {cs : List Char} (hs : s.toList = c :: cs)
    (hblank : Text.isBlank c = false) (hdigit : Numeral.isDigit c = false)
    (hc : c ∉ ['-', '+', '.']) : read? s = none := by
  have htrim : Text.trim s.toList = c :: Text.trimEnd cs := by
    rw [hs]
    exact @Text.trim_append_cons c [] cs hblank
  rw [read?, htrim, Decimal.read?_cons_eq_none hdigit hc, Option.map_none]

theorem text_of_isFinite (h : x.isFinite = true) : text x = String.ofList (shortest x).plain := by
  obtain ⟨hnan, hinf⟩ := isFinite_iff.mp h
  simp only [text, hnan, hinf, Bool.false_eq_true, if_false]

/-- **The text of a finite double is read as the double.** -/
theorem read?_text (h : x.isFinite = true) : read? (text x) = some x := by
  have htrim : Text.trim (text x).toList = (shortest x).plain := by
    rw [text_of_isFinite h, String.toList_ofList]
    exact Text.trim_eq_self_of_forall fun c hc => Decimal.isBlank_of_mem_plain hc
  obtain ⟨d, hread, hfloat⟩ := Decimal.read?_plain (shortest x)
  rw [read?, htrim, hread, Option.map_some, hfloat, toFloat_shortest h]

/-- The three texts of doubles that are not finite. -/
theorem text_cases (x : Float) :
    (x.isFinite = true ∧ read? (text x) = some x) ∨
    (x = Float.nan ∧ text x = "NaN") ∨
    (x = ofBits true infinityBits ∧ text x = "-inf") ∨
    (x = ofBits false infinityBits ∧ text x = "inf") := by
  cases hfinite : x.isFinite with
  | true => exact Or.inl ⟨rfl, read?_text hfinite⟩
  | false =>
    refine Or.inr ?_
    cases hnan : x.isNaN with
    | true => exact Or.inl ⟨by simpa using hnan, by rw [text, hnan, if_pos rfl]⟩
    | false =>
      have hinf : x.isInf = true := by
        rw [← Bool.not_eq_true, isFinite_iff] at hfinite
        exact Bool.eq_true_of_not_eq_false fun hinf => hfinite ⟨hnan, hinf⟩
      have hbits := ofBits_sizeBits x
      rw [isInf_iff.mp hinf] at hbits
      refine Or.inr ?_
      cases hsign : isNegative x with
      | true =>
        rw [hsign] at hbits
        exact Or.inl ⟨hbits.symm, by rw [text, hnan, hinf, hsign]; rfl⟩
      | false =>
        rw [hsign] at hbits
        exact Or.inr ⟨hbits.symm, by rw [text, hnan, hinf, hsign]; rfl⟩

/-- The characters of the text of a double. -/
theorem mem_text {c : Char} (h : c ∈ (text x).toList) :
    Column.isLetter c = true ∨ Numeral.isDigit c = true ∨ c = '.' ∨ c = '-' := by
  have hletters : ∀ t ∈ ["NaN", "-inf", "inf"],
      t.toList.all (fun c => Column.isLetter c || c == '-') = true := by decide
  rcases text_cases x with ⟨hfinite, -⟩ | hrest
  · rw [text_of_isFinite hfinite, String.toList_ofList] at h
    exact Or.inr (Decimal.mem_plain h)
  · have htext : text x ∈ ["NaN", "-inf", "inf"] := by
      rcases hrest with ⟨-, htext⟩ | ⟨-, htext⟩ | ⟨-, htext⟩ <;> simp [htext]
    have hc := List.all_eq_true.mp (hletters _ htext) c h
    rw [Bool.or_eq_true, beq_iff_eq] at hc
    exact hc.imp_right fun hminus => Or.inr (Or.inr hminus)

/-- The double that has the given text. -/
def ofText? (s : String) : Option Float :=
  if s = "NaN" then some Float.nan
  else if s = "-inf" then some (ofBits true infinityBits)
  else if s = "inf" then some (ofBits false infinityBits)
  else read? s

/-- **The text of a double determines it.** -/
theorem ofText?_text (x : Float) : ofText? (text x) = some x := by
  unfold ofText?
  rcases text_cases x with ⟨-, hread⟩ | ⟨rfl, htext⟩ | ⟨rfl, htext⟩ | ⟨rfl, htext⟩
  · have hne : ∀ s, read? s = none → text x ≠ s := by
      rintro s hs rfl
      rw [hs] at hread
      cases hread
    rw [if_neg (hne _ rfl), if_neg (hne _ rfl), if_neg (hne _ rfl), hread]
  · rw [htext, if_pos rfl]
  · rw [htext, if_neg (by decide), if_pos rfl]
  · rw [htext, if_neg (by decide), if_neg (by decide), if_pos rfl]

end Number

end Spreadsheet
