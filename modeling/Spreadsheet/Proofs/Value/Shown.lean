import Mathlib
import Spreadsheet.Proofs.Number.ReadBack

/-! # Values that pass through a cell

A cell shows its value as text, and whoever reads the cell reads that text. Different values can
have one text: a bare number, a truth value or a marker may have been written as text, and an
infinity shows a marker. Reading a text settles this once and for all.

* `Scalar.ofShown_number`: a finite number is read back, a zero without its sign.
* `Scalar.isFinite_ofShown`: only finite numbers are read.
* `Scalar.ofShown_shown`: what has been read from a text is read again from what it shows.
* `Value.shown_ofShown_shown`: a formula that only refers to a cell shows a text that is shown
  again by a formula that only refers to it. -/

namespace Spreadsheet

namespace Number

variable {x : Float}

/-- The text that a finite number is shown as is read as the number, and as zero for either zero. -/
theorem read?_shown (h : x.isFinite = true) :
    read? (shown x) = some (if x == 0 then 0 else x) := by
  cases h0 : x == 0 with
  | true =>
    have hshown : shown x = "0" := by
      simp only [shown, h, h0, Bool.not_true, Bool.false_eq_true, if_false, if_true]
    rw [hshown]
    rfl
  | false =>
    have hshown : shown x = text x := by
      simp only [shown, h, h0, Bool.not_true, Bool.false_eq_true, if_false]
    rw [hshown, read?_text h, if_neg Bool.false_ne_true]

theorem isFinite_unsigned (h : x.isFinite = true) :
    (if x == 0 then (0 : Float) else x).isFinite = true := by
  split
  · decide
  · exact h

end Number

namespace Scalar

/-- The scalar with zero in place of the zero that has a sign. -/
def unsigned : Scalar → Scalar
  | number x => number (if x == 0 then 0 else x)
  | s => s

variable {s : String} {x : Float}

/-- A text that is read as a number is neither empty nor a marker. -/
theorem ofShown_of_read? (h : Number.read? s = some x) :
    ofShown s = number (if x.isFinite then x else 0) := by
  have hempty : s ≠ "" := by
    rintro rfl
    cases h
  have hmarker : Marker.ofText? s = none := by
    cases hm : Marker.ofText? s with
    | none => rfl
    | some m =>
      rw [← Marker.text_of_ofText? hm] at h
      cases m <;> cases h
  simp only [ofShown, if_neg hempty, hmarker, Option.isSome_none, Bool.false_eq_true, if_false, h]

/-- **A finite number is read back from what it shows**, a zero without its sign. -/
theorem ofShown_number (h : x.isFinite = true) :
    ofShown (number x).shown = (number x).unsigned := by
  show ofShown (Number.shown x) = _
  rw [ofShown_of_read? (Number.read?_shown h), if_pos (Number.isFinite_unsigned h)]
  rfl

/-- The kinds of texts: nothing, a text that counts as a finite number, a truth value, and a text
that is nothing else. -/
theorem ofShown_cases (s : String) : ofShown s = empty ∨
    (∃ x, ofShown s = number x ∧ x.isFinite = true) ∨ (∃ b, ofShown s = boolean b) ∨
    ofShown s = text s := by
  unfold ofShown
  split
  · exact Or.inl rfl
  split
  · exact Or.inr (Or.inl ⟨0, rfl, by decide⟩)
  cases Number.read? s with
  | some x =>
    have hfinite : (if x.isFinite = true then x else 0).isFinite = true := by
      split
      · assumption
      · decide
    exact Or.inr (Or.inl ⟨_, rfl, hfinite⟩)
  | none =>
    dsimp only
    split_ifs
    · exact Or.inr (Or.inr (Or.inl ⟨true, rfl⟩))
    · exact Or.inr (Or.inr (Or.inl ⟨false, rfl⟩))
    · exact Or.inr (Or.inr (Or.inr rfl))

/-- **What is read from a text is a finite number, if it is one.** -/
theorem isFinite_ofShown (h : ofShown s = number x) : x.isFinite = true := by
  rcases ofShown_cases s with hs | ⟨y, hs, hfinite⟩ | ⟨b, hs⟩ | hs
  · cases h.symm.trans hs
  · cases h.symm.trans hs
    exact hfinite
  · cases h.symm.trans hs
  · cases h.symm.trans hs

/-- **What has been read is read again from what it shows**, up to the sign of a zero. -/
theorem ofShown_shown (s : String) : ofShown (ofShown s).shown = (ofShown s).unsigned := by
  rcases ofShown_cases s with hs | ⟨x, hs, hfinite⟩ | ⟨b, hs⟩ | hs
  · rw [hs]
    rfl
  · rw [hs, ofShown_number hfinite]
  · rw [hs]
    cases b <;> rfl
  · rw [hs]
    exact hs

/-- The sign of a zero is not shown. -/
theorem shown_unsigned (v : Scalar) : v.unsigned.shown = v.shown := by
  cases v with
  | number x =>
    show Number.shown (if x == 0 then 0 else x) = Number.shown x
    cases h0 : x == 0 with
    | true => rcases Number.eq_of_beq_zero h0 with rfl | rfl <;> rfl
    | false => rfl
  | empty => rfl
  | text s => rfl
  | boolean b => rfl

end Scalar

/-- **What is shown for a cell is shown for what has been read from it.** A bare empty cell is shown
as zero, and so is a zero. -/
theorem Value.shown_ofShown_shown (s : String) :
    (Value.scalar (.ofShown (Value.scalar (.ofShown s)).shown)).shown =
      (Value.scalar (.ofShown s)).shown := by
  have hshown : ∀ v : Scalar, v ≠ .empty → (Value.scalar v).shown = v.shown := by
    intro v hv
    cases v with
    | empty => exact absurd rfl hv
    | _ => rfl
  by_cases hempty : Scalar.ofShown s = .empty
  · rw [hempty]
    rfl
  · have hunsigned : (Scalar.ofShown s).unsigned ≠ .empty := by
      cases hv : Scalar.ofShown s with
      | empty => exact absurd hv hempty
      | _ => exact Scalar.noConfusion
    rw [hshown _ hempty, Scalar.ofShown_shown, hshown _ hunsigned, Scalar.shown_unsigned]

end Spreadsheet
