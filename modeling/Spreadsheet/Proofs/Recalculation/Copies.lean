import Mathlib
import Spreadsheet.Proofs.Recalculation.Texts
import Spreadsheet.Proofs.Sheet.A1
import Spreadsheet.Proofs.Sheet.Boundary
import Spreadsheet.Proofs.Value.Shown

/-! # Cells that refer to cells

A cell whose formula is nothing but a reference shows what it reads from the cell it refers to. A
reference to such a cell shows the same once more, whatever the text at the end of the references
is: `Store.recalculate_copies`. A formula that is the text of another cell is such a reference
(`Store.refers_a1`). -/

namespace Spreadsheet

open Relation

namespace Store

variable {s : Store} {a b c : Address}

/-- The cell holds a formula that is nothing but a reference to the second cell. -/
def Refers (s : Store) (b a : Address) : Prop := s.program? b = some [.push (.ref a)]

instance (s : Store) (b a : Address) : Decidable (s.Refers b a) :=
  inferInstanceAs (Decidable (_ = _))

/-- **The text of a cell of the sheet behind an equals sign refers to the cell.** -/
theorem refers_a1 (ha : s.limits.contains a = true) (h : s.get? b = some ("=" ++ a.a1)) :
    s.Refers b a := by
  have hblank : ∀ d ∈ a.a1.toList, Text.isBlank d = false := fun d hd =>
    (Address.isAlphanumeric_a1 a d hd).elim Token.isBlank_of_isLetter Token.isBlank_of_isDigit
  have hequals : '=' ∉ a.a1.toList := fun hmem =>
    (Address.isAlphanumeric_a1 a _ hmem).elim (by decide) (by decide)
  have htext : ("=" ++ a.a1).toList = '=' :: a.a1.toList := by
    rw [String.toList_append]
    rfl
  have hbody : Token.body ('=' :: a.a1.toList) = Token.body a.a1.toList := by
    rw [Token.body_equals fun d hd => ?_, Token.body, Text.trim_eq_self_of_forall hblank]
    · split
      · next heq => exact absurd (heq ▸ List.mem_cons_self) hequals
      · rfl
    · rcases List.mem_cons.mp (List.mem_of_getLast? hd) with rfl | hd
      · rfl
      · exact hblank d hd
  have hsource : Program.ofSource s.limits ("=" ++ a.a1) = Program.ofSource s.limits a.a1 := by
    rw [Program.ofSource, Program.ofSource, Token.ofSource, Token.ofSource, htext, hbody]
  have hformula : isFormula ("=" ++ a.a1) = true := by
    rw [isFormula, htext]
    rfl
  rw [Refers, program?_formula h hformula, hsource, Program.ofSource_a1, if_pos ha]

theorem Refers.eq_of_reads (hb : s.Refers b a) (h : s.Reads b c) : c = a := by
  obtain ⟨program, hprogram, hc⟩ := h.program?
  rw [hb] at hprogram
  cases hprogram
  have hcells := (mem_reads.mp hc).1
  simpa [Program.cells, Program.firstFailure?, Operand.cells] using hcells

/-- A reference to a cell on no cycle lies on no cycle. -/
theorem Refers.not_onCycle (hc : s.Refers c b) (hb : ¬ s.OnCycle b) : ¬ s.OnCycle c := by
  intro hcycle
  obtain ⟨d, hcd, hdc⟩ := TransGen.head'_iff.mp hcycle
  obtain rfl := hc.eq_of_reads hcd
  exact hb (TransGen.tail' hdc hcd)

theorem Refers.not_onCycle_of_literal (hb : s.Refers b a) (ha : s.program? a = none) :
    ¬ s.OnCycle b := by
  refine hb.not_onCycle fun hcycle => ?_
  obtain ⟨program, hprogram⟩ := hcycle.program?
  rw [ha] at hprogram
  cases hprogram

end Store

namespace Pass.Complete

variable {s : Store} {p : Pass} {a b : Address}

/-- A finished pass shows a reference as the value of the cell it refers to. -/
theorem getElem?_of_refers (hp : Complete s s.addresses p) (hb : s.Refers b a)
    (hcycle : ¬ s.OnCycle b) :
    p.settled[b]? = some (Value.scalar (viewOf p.settled a)).shown := by
  have hsettled : b ∈ p.settled := hp.mem_settled_iff.mpr (Store.isSome_of_program? hb)
  have hm : b ∉ p.cyclic := fun hm => hcycle (hp.mem_cyclic_iff.mp hm).onCycle
  exact hp.shows.formula b hsettled hm _ hb rfl

end Pass.Complete

/-- What a cell passes on has been read from some text. -/
theorem exists_viewOf (shown : Std.TreeMap Address String) (a : Address) :
    ∃ text, viewOf shown a = .ofShown text := by
  unfold viewOf
  cases shown[a]? with
  | none => exact ⟨"", rfl⟩
  | some text => exact ⟨text, rfl⟩

namespace Store

variable {m : Type → Type} [Monad m] [LawfulMonad m]

/-- **A reference to a reference shows the same text.** Reading is stable: no text is read as a
number that is not finite, and what has been read from a text is read again from what it shows, up
to the sign of a zero. So if a cell on no cycle holds nothing but a reference, a cell that holds
nothing but a reference to it shows the same text, whatever the cell at the end holds and whatever
else is in the sheet. -/
theorem recalculate_copies (volatile : Volatile → m Scalar) :
    (∀ text x, Scalar.ofShown text = .number x → x.isFinite = true) ∧
    (∀ text, Scalar.ofShown (Scalar.ofShown text).shown = (Scalar.ofShown text).unsigned) ∧
    ∀ (s : Store) (a b c : Address), s.Refers b a → s.Refers c b → ¬ s.OnCycle b →
      SatisfiesM (fun r => ∃ text, r.shown[b]? = some text ∧ r.shown[c]? = some text)
        (s.recalculate volatile) := by
  refine ⟨fun _ _ => Scalar.isFinite_ofShown, Scalar.ofShown_shown, fun s a b c hb hc hcycle => ?_⟩
  rw [recalculate_eq]
  refine (s.satisfiesM_pass volatile).map fun {p} hp => ?_
  have hshownB := hp.getElem?_of_refers hb hcycle
  have hshownC := hp.getElem?_of_refers hc (hc.not_onCycle hcycle)
  obtain ⟨text, htext⟩ := exists_viewOf p.settled a
  have hviewB : viewOf p.settled b = .ofShown (Value.scalar (.ofShown text)).shown := by
    rw [viewOf, hshownB, htext]
  rw [hviewB, Value.shown_ofShown_shown] at hshownC
  rw [htext] at hshownB
  exact ⟨_, hshownB, hshownC⟩

/-- `B3` refers to a number beyond all doubles, and `C3` to `B3`. -/
def copying : Store :=
  Store.empty {}
    |>.insert ⟨2, 0⟩ " 1e400 " (by decide) (by decide)
    |>.insert ⟨2, 1⟩ "=A3" (by decide) (by decide)
    |>.insert ⟨2, 2⟩ "= b3" (by decide) (by decide)

theorem copying_refers : copying.Refers ⟨2, 1⟩ ⟨2, 0⟩ ∧ copying.Refers ⟨2, 2⟩ ⟨2, 1⟩ ∧
    ¬ copying.OnCycle ⟨2, 1⟩ ∧ ∃ r, copying.recalculate Pass.nothing = pure r ∧
      ∃ text, r.shown[(⟨2, 1⟩ : Address)]? = some text ∧
        r.shown[(⟨2, 2⟩ : Address)]? = some text := by
  have hb : copying.Refers ⟨2, 1⟩ ⟨2, 0⟩ := refers_a1 (by decide) (by decide +kernel)
  have hc : copying.Refers ⟨2, 2⟩ ⟨2, 1⟩ := by decide +kernel
  have hcycle : ¬ copying.OnCycle ⟨2, 1⟩ := hb.not_onCycle_of_literal (by decide +kernel)
  obtain ⟨-, -, hcopies⟩ := recalculate_copies (m := Id) Pass.nothing
  have hsame := SatisfiesM_Id_eq.mp (hcopies copying _ _ _ hb hc hcycle)
  exact ⟨hb, hc, hcycle, copying.recalculate Pass.nothing, rfl, hsame⟩

end Store

end Spreadsheet
