import Spreadsheet.Recalculation
import Mathlib.Logic.Relation

/-! # Which cells read which

A cell reads the cells with a text that its formula names: `Store.Reads`. A cell lies on a cycle
if it reads itself, directly or through other cells: `Store.OnCycle`. With some cells taken out of
the sheet there are fewer cycles: `Store.OnCycleOutside`. Only formulas read
(`Store.Reads.program?`) and only cells with a text are read (`Store.Reads.isSome`). -/

namespace Spreadsheet.Store

open Relation

/-- The compiled formula in a cell, if a formula is in it. -/
def program? (s : Store) (a : Address) : Option Program :=
  (s.get? a).bind fun text =>
    if isFormula text then some (Program.ofSource s.limits text) else none

/-- The cells with a text that the formula in a cell reads, in order. -/
def readsOf (s : Store) (a : Address) : List Address :=
  ((s.program? a).map (Program.reads s)).getD []

/-- The formula in the first cell reads the second cell. -/
def Reads (s : Store) (a b : Address) : Prop := b ∈ s.readsOf a

/-- A cell that reads itself, directly or through other cells. -/
def OnCycle (s : Store) (a : Address) : Prop := TransGen s.Reads a a

/-- The formula in the first cell reads the second cell, which is none of the given ones. -/
def ReadsOutside (s : Store) (out : List Address) (a b : Address) : Prop := s.Reads a b ∧ b ∉ out

/-- A cell that reads itself, directly or through other cells, all of them none of the given ones.
-/
def OnCycleOutside (s : Store) (out : List Address) (a : Address) : Prop :=
  TransGen (s.ReadsOutside out) a a

/-- No formula of the sheet calls a function that changes. -/
def Steady (s : Store) : Prop := ∀ a p, s.program? a = some p → p.callsVolatile = false

variable {s : Store} {a b : Address} {text : String}

theorem isSome_of_program? {p : Program} (h : s.program? a = some p) : (s.get? a).isSome := by
  obtain ⟨text, ht, -⟩ := Option.bind_eq_some_iff.mp h
  simp [ht]

/-- A sheet is steady if the formulas in its cells are. -/
theorem steady_iff : s.Steady ↔ ∀ a ∈ s.addresses, ∀ p ∈ s.program? a, p.callsVolatile = false := by
  constructor
  · exact fun h a _ p hp => h a p hp
  · intro h a p hp
    exact h a (mem_addresses.mpr (isSome_of_program? hp)) p hp

instance (s : Store) : Decidable s.Steady := decidable_of_iff _ steady_iff.symm

instance (s : Store) (a b : Address) : Decidable (s.Reads a b) :=
  inferInstanceAs (Decidable (b ∈ s.readsOf a))

theorem program?_formula (ht : s.get? a = some text) (hf : isFormula text = true) :
    s.program? a = some (Program.ofSource s.limits text) := by
  simp [program?, ht, hf]

theorem program?_literal (ht : s.get? a = some text) (hf : isFormula text = false) :
    s.program? a = none := by
  simp [program?, ht, hf]

theorem readsOf_program {p : Program} (h : s.program? a = some p) : s.readsOf a = p.reads s := by
  simp [readsOf, h]

theorem readsOf_literal (h : s.program? a = none) : s.readsOf a = [] := by
  simp [readsOf, h]

theorem mem_reads {p : Program} : b ∈ p.reads s ↔ b ∈ p.cells ∧ (s.get? b).isSome := by
  simp [Program.reads]

/-- Only formulas read. -/
theorem Reads.program? (h : s.Reads a b) : ∃ p, s.program? a = some p ∧ b ∈ p.reads s := by
  unfold Reads readsOf at h
  cases hp : s.program? a with
  | none => simp [hp] at h
  | some p => exact ⟨p, rfl, by simpa [hp] using h⟩

/-- Only cells with a text are read. -/
theorem Reads.isSome (h : s.Reads a b) : (s.get? b).isSome := by
  obtain ⟨p, -, hb⟩ := h.program?
  exact (mem_reads.mp hb).2

theorem OnCycle.program? (h : s.OnCycle a) : ∃ p, s.program? a = some p := by
  obtain ⟨b, hab, -⟩ := TransGen.head'_iff.mp h
  obtain ⟨p, hp, -⟩ := Reads.program? hab
  exact ⟨p, hp⟩

theorem OnCycleOutside.onCycle {out : List Address} (h : s.OnCycleOutside out a) : s.OnCycle a :=
  TransGen.mono (fun _ _ hxy => hxy.1) a a h

theorem not_onCycleOutside_of_literal {out : List Address} (h : s.program? a = none) :
    ¬ s.OnCycleOutside out a := by
  intro hc
  obtain ⟨p, hp⟩ := hc.onCycle.program?
  rw [h] at hp
  cases hp

end Spreadsheet.Store
