import Spreadsheet.Proofs.Formula.Sequence
import Spreadsheet.Proofs.Program.Balance
import Spreadsheet.Proofs.Sheet.Rectangle

/-! # References stay within the sheet

A formula names no cell outside its sheet, whatever its tokens are. References and corners of ranges
are resolved against the limits when items are read (`Item.Reads.within`), compiling makes no
operands of its own (`Program.operand_mem_of_push`), and a range between two cells of a sheet has no
other cells (`Operand.Within.contains`). So an evaluation looks up cells of the sheet only, and the
ranges it goes through are small enough for their sizes to be counted. Main statement:
`Program.references_within`. -/

namespace Spreadsheet

variable {l : Limits} {is : List Item} {ts : List Token} {o : Operand} {a : Address}

/-- An operand names cells of the sheet only: a reference its cell, and a range its corners. -/
def Operand.Within (l : Limits) : Operand → Prop
  | ref a => l.contains a = true
  | range r => l.contains r.first = true ∧ l.contains r.last = true
  | number _ | text _ => True

/-! ### Items -/

theorem Item.Spells.within {ts : List Token} (h : Spells l (.operand o) ts) : o.Within l := by
  cases h with
  | number x => trivial
  | text s => trivial
  | ref h => exact h.inside
  | range ha hb => exact Range.contains_spanning ha.inside hb.inside

/-- **The operands that are read from tokens lie within the sheet.** -/
theorem Item.Reads.within (h : Reads l is ts) (ho : .operand o ∈ is) : o.Within l := by
  induction h with
  | nil => cases ho
  | item hi _ _ ih =>
    rcases List.mem_cons.mp ho with rfl | ho
    · exact hi.within
    · exact ih ho
  | failure _ _ ih => exact ih ((List.mem_cons.mp ho).resolve_left (by simp))

/-! ### Programs -/

/-- Only an operand adds an operand to a program. -/
theorem Item.eq_of_push_mem_places {i : Item} {ps : List Pending} {s : Slot}
    (h : .push o ∈ i.places s ps) : i = .operand o := by
  cases i with
  | operand p => simpa [places, eq_comm] using h
  | failure m => simp [places] at h
  | operator p => cases h
  | leftParen => cases h
  | call name => cases h
  | comma =>
    dsimp only [places] at h
    split at h
    · cases h
    · simp at h
  | rightParen =>
    dsimp only [places] at h
    split at h
    · cases h
    · simp at h
    · simp at h

theorem Item.mem_of_push_mem_sequence {ps : List Pending} {s : Slot}
    (h : .push o ∈ sequence ps s is) : .operand o ∈ is := by
  induction is generalizing ps s with
  | nil => simp [sequence] at h
  | cons i is ih =>
    rcases List.mem_append.mp h with h | h
    · exact eq_of_push_mem_places h ▸ List.mem_cons_self
    · exact List.mem_cons_of_mem i (ih h)

namespace Program

theorem operand_mem_of_push (h : .push o ∈ ofTokens l ts) : .operand o ∈ Item.ofTokens l ts :=
  Item.mem_of_push_mem_sequence (mem_sequence rfl h)

/-- **The operands of a compiled formula lie within the sheet.** -/
theorem within_of_push (h : .push o ∈ ofTokens l ts) : o.Within l :=
  (Item.reads_iff.mpr rfl).within (operand_mem_of_push h)

end Program

/-! ### Evaluations -/

theorem Range.contains_limits_of_contains {r : Range} (hlast : l.contains r.last = true)
    (ha : r.contains a = true) : l.contains a = true := by
  rw [contains_limits_iff] at hlast ⊢
  rw [contains_iff] at ha
  omega

theorem Operand.Within.contains (h : o.Within l) (ha : a ∈ o.cells) : l.contains a = true := by
  cases o with
  | number x => cases ha
  | text s => cases ha
  | ref b => exact List.mem_singleton.mp ha ▸ h
  | range r =>
    have hfits : r.Fits := Range.fits_of_contains h.2
    exact Range.contains_limits_of_contains h.2 (hfits.mem_cells_iff.mp ha)

namespace Program

variable {p : Program}

/-- Cells are listed for a program because an operand of it names them. -/
theorem exists_push_of_mem_cells (h : a ∈ p.cells) : ∃ o, .push o ∈ p ∧ a ∈ o.cells := by
  cases hp : p.firstFailure? with
  | some marker =>
    rw [cells, hp] at h
    cases h
  | none =>
    obtain ⟨i, hi, ha⟩ := (mem_cells hp).mp h
    cases i with
    | push o => exact ⟨o, hi, ha⟩
    | _ => cases ha

/-- **An evaluation looks up cells of the sheet only.** -/
theorem contains_of_mem_lookups {σ : Type} {src : Source (StateM σ)} {st : σ}
    (h : a ∈ (ofTokens l ts).lookups src st) : l.contains a = true := by
  rw [((ofTokens l ts).evaluate_course src st).1] at h
  obtain ⟨o, ho, ha⟩ := exists_push_of_mem_cells ((ofTokens l ts).course_reads.1.subset h)
  exact (within_of_push ho).contains ha

/-- **References never leave the sheet.** Whatever the tokens are, the references of the compiled
formula and the corners of its ranges lie within the limits, and the first corner of a range lies
neither below nor to the right of the last one. So whatever the text of a formula is, its evaluation
looks up cells within the limits only, and the sizes of its ranges are counted without overflow. -/
theorem references_within (l : Limits) :
    (∀ ts, (∀ a, .push (.ref a) ∈ ofTokens l ts → l.contains a = true) ∧
      ∀ r, .push (.range r) ∈ ofTokens l ts →
        l.contains r.first = true ∧ l.contains r.last = true ∧
          r.first.row ≤ r.last.row ∧ r.first.column ≤ r.last.column) ∧
    ∀ source, (∀ {σ : Type} (src : Source (StateM σ)) (st : σ),
        ∀ a ∈ (ofSource l source).lookups src st, l.contains a = true) ∧
      ∀ r, .push (.range r) ∈ ofSource l source →
        r.rowCount.toNat = r.last.row.toNat - r.first.row.toNat + 1 ∧
          r.columnCount.toNat = r.last.column.toNat - r.first.column.toNat + 1 ∧
          r.count.toNat = r.rowCount.toNat * r.columnCount.toNat := by
  refine ⟨fun ts => ⟨fun a ha => within_of_push ha, fun r hr => ?_⟩,
    fun source => ⟨fun src st a ha => contains_of_mem_lookups ha, fun r hr => ?_⟩⟩
  · obtain ⟨hfirst, hlast⟩ : Operand.Within l (.range r) := within_of_push hr
    exact ⟨hfirst, hlast, r.row_le, r.column_le⟩
  · obtain ⟨-, hlast⟩ : Operand.Within l (.range r) := within_of_push hr
    have hfits : r.Fits := Range.fits_of_contains hlast
    exact ⟨hfits.toNat_rowCount, hfits.toNat_columnCount, r.toNat_count⟩

/-- The last row of the largest sheet, named from right to left. -/
theorem references_within_largest :
    let l : Limits := ⟨4294967295, 65535⟩
    let r := Range.spanning ⟨4294967294, 65534⟩ ⟨4294967294, 0⟩
    .push (.range r) ∈ ofSource l "=CRXO4294967295:A4294967295" ∧
      l.contains r.last = true ∧ r.columnCount.toNat = 65535 := by
  intro l r
  have hr : .push (.range r) ∈ ofSource l "=CRXO4294967295:A4294967295" := by decide +kernel
  obtain ⟨-, hlast, -⟩ := ((references_within l).1 _).2 r hr
  obtain ⟨-, hcolumns, -⟩ := ((references_within l).2 _).2 r hr
  exact ⟨hr, hlast, hcolumns⟩

end Program

end Spreadsheet
