import Spreadsheet.Proofs.Recalculation.Texts

/-! # What a cell depends on

A cell depends on the texts that its formula mentions and on those that the formulas mention which
it leads to, and on nothing else in the sheet: `Store.AgreesFrom` says that two sheets have these
texts in common, and `Store.recalculate_local` that the cell then shows the same in both. Other
cells may lie before it or on cycles, or call functions that change; only the formulas that the cell
leads to must not (`Store.CalmFrom`).

A formula leads to the cells it reads and to those these lead to. Sheets that agree from a cell
agree from each cell it leads to (`Store.AgreesFrom.leadsTo`), and it leads to the same cells in
both (`Store.AgreesFrom.leadsTo_iff`). -/

namespace Spreadsheet

open Relation

namespace Store

/-- The first cell reads the second one, directly or through other cells, or is that cell. -/
def LeadsTo (s : Store) : Address → Address → Prop := ReflTransGen s.Reads

/-- **Two sheets have in common what a cell depends on**: their size, the text of the cell, and what
the cells hold that are mentioned by a formula which the cell leads to. A cell that holds nothing
must hold nothing in both. -/
structure AgreesFrom (s t : Store) (c : Address) : Prop where
  limits : s.limits = t.limits
  get? : s.get? c = t.get? c
  mentioned : ∀ a program, s.LeadsTo c a → s.program? a = some program →
    ∀ b ∈ program.cells, s.get? b = t.get? b

/-- A cell leads to no cycle and to no formula that calls a function that changes. -/
structure CalmFrom (s : Store) (c : Address) : Prop where
  acyclic : ∀ a, s.LeadsTo c a → ¬ s.OnCycle a
  steady : ∀ a program, s.LeadsTo c a → s.program? a = some program → program.callsVolatile = false

variable {s t : Store} {a b c : Address} {program : Program}

/-! ### Sheets that agree from a cell -/

theorem CalmFrom.reads (h : s.CalmFrom c) (hcb : s.Reads c b) : s.CalmFrom b where
  acyclic a ha := h.acyclic a (ReflTransGen.head hcb ha)
  steady a program ha := h.steady a program (ReflTransGen.head hcb ha)

namespace AgreesFrom

theorem refl (s : Store) (c : Address) : s.AgreesFrom s c := ⟨rfl, rfl, fun _ _ _ _ _ _ => rfl⟩

theorem program?_eq (h : s.AgreesFrom t c) : s.program? c = t.program? c := by
  rw [program?, program?, h.get?, h.limits]

theorem reads (h : s.AgreesFrom t c) (hcb : s.Reads c b) : s.AgreesFrom t b where
  limits := h.limits
  get? := by
    obtain ⟨program, hprogram, hb⟩ := hcb.program?
    exact h.mentioned c program ReflTransGen.refl hprogram b (mem_reads.mp hb).1
  mentioned a program ha := h.mentioned a program (ReflTransGen.head hcb ha)

theorem leadsTo (h : s.AgreesFrom t c) (hca : s.LeadsTo c a) : s.AgreesFrom t a := by
  induction hca with
  | refl => exact h
  | tail _ hab ih => exact ih.reads hab

/-- The cell reads the same cells in both sheets. -/
theorem reads_iff (h : s.AgreesFrom t c) : s.Reads c b ↔ t.Reads c b := by
  unfold Reads readsOf
  rw [← h.program?_eq]
  cases hprogram : s.program? c with
  | none => rfl
  | some program =>
    have hget : b ∈ program.cells → s.get? b = t.get? b :=
      h.mentioned c program ReflTransGen.refl hprogram b
    simp only [Option.map_some, Option.getD_some, mem_reads]
    exact and_congr_right fun hb => by rw [hget hb]

theorem leadsTo_iff (h : s.AgreesFrom t c) : s.LeadsTo c a ↔ t.LeadsTo c a := by
  constructor
  · intro hca
    induction hca with
    | refl => exact ReflTransGen.refl
    | tail hcb hba ih => exact ReflTransGen.tail ih ((h.leadsTo hcb).reads_iff.mp hba)
  · intro hca
    induction hca with
    | refl => exact ReflTransGen.refl
    | tail _ hba ih => exact ReflTransGen.tail ih ((h.leadsTo ih).reads_iff.mpr hba)

theorem onCycle_iff (h : s.AgreesFrom t c) : s.OnCycle c ↔ t.OnCycle c := by
  unfold OnCycle
  rw [TransGen.head'_iff, TransGen.head'_iff]
  refine exists_congr fun b => ?_
  rw [← h.reads_iff]
  exact and_congr_right fun hcb => (h.reads hcb).leadsTo_iff

end AgreesFrom

end Store

/-! ### Finished passes -/

namespace Pass.Complete

variable {s t : Store} {roots roots' : List Address} {p q : Pass} {a c : Address}

theorem mem_cyclic_onCycle (h : Complete s roots p) (hm : a ∈ p.cyclic) : s.OnCycle a :=
  ((h.found a (h.marked_settled a hm)).mp hm).onCycle

/-- **Two finished passes give a cell the same text** if their sheets agree from the cell and it
leads to no cycle and to no formula that calls a function that changes. -/
theorem getElem?_eq (hp : Complete s roots p) (hq : Complete t roots' q) (hcp : c ∈ p.settled)
    (hcq : c ∈ q.settled) (hagree : s.AgreesFrom t c) (hcalm : s.CalmFrom c) :
    p.settled[c]? = q.settled[c]? := by
  -- no cell that the cell leads to is marked, and the cells without a mark read in no circle
  have hacc := hp.shows.grounded c hcp
  induction hacc with
  | intro c _ ih =>
    obtain ⟨text, ht⟩ := Option.isSome_iff_exists.mp (hp.stored c hcp)
    have ht' : t.get? c = some text := by rw [← hagree.get?, ht]
    cases hf : isFormula text with
    | false => rw [hp.shows.literal c hcp text ht hf, hq.shows.literal c hcq text ht' hf]
    | true =>
      have hprogram := Store.program?_formula ht hf
      have hprogram' : t.program? c = some (Program.ofSource s.limits text) := by
        rw [← hagree.program?_eq, hprogram]
      have hcycle : ¬ s.OnCycle c := hcalm.acyclic c ReflTransGen.refl
      have hvolatile := hcalm.steady c _ ReflTransGen.refl hprogram
      have hmp : c ∉ p.cyclic := fun hm => hcycle (hp.mem_cyclic_onCycle hm)
      have hmq : c ∉ q.cyclic := fun hm =>
        hcycle (hagree.onCycle_iff.mpr (hq.mem_cyclic_onCycle hm))
      rw [hp.shows.formula c hcp hmp _ hprogram hvolatile,
        hq.shows.formula c hcq hmq _ hprogram' hvolatile]
      refine congrArg some (Program.shownFrom_congr (fun b hb => ?_) hvolatile)
      have hget : s.get? b = t.get? b := hagree.mentioned c _ ReflTransGen.refl hprogram b hb
      cases hb' : s.get? b with
      | none => rw [hp.viewOf_eq_empty hb', hq.viewOf_eq_empty (hget ▸ hb')]
      | some raw =>
        have hcb : s.Reads c b := by
          rw [Store.Reads, Store.readsOf_program hprogram]
          exact Store.mem_reads.mpr ⟨hb, by simp [hb']⟩
        have hbp : b ∈ p.settled := hp.reads_settled c hcp b hcb
        have hbq : b ∈ q.settled := hq.reads_settled c hcq b (hagree.reads_iff.mp hcb)
        have hb : p.settled[b]? = q.settled[b]? :=
          ih b ⟨hcb, hmp⟩ hbp hbq (hagree.reads hcb) (hcalm.reads hcb)
        rw [viewOf, viewOf, hb]

end Pass.Complete

/-! ### Recalculations -/

namespace Store

variable {m n : Type → Type} [Monad m] [LawfulMonad m] [Monad n] [LawfulMonad n] {s t : Store}
  {c : Address}

/-- **What a cell shows depends on nothing but what it leads to.** If two sheets agree from a cell,
and it leads to no cycle and to no formula that calls a function that changes, then there is one
text that both sheets show there, whatever else is in them and whatever the functions that change
answer elsewhere. -/
theorem recalculate_local (hc : (s.get? c).isSome) (hagree : s.AgreesFrom t c)
    (hcalm : s.CalmFrom c) (volatile : Volatile → m Scalar) (volatile' : Volatile → n Scalar) :
    ∃ text, SatisfiesM (fun r => r.shown[c]? = some text) (s.recalculate volatile) ∧
      SatisfiesM (fun r => r.shown[c]? = some text) (t.recalculate volatile') := by
  have hp : Pass.Complete s s.addresses (Id.run (s.pass Pass.nothing)) :=
    SatisfiesM_Id_eq.mp (s.satisfiesM_pass Pass.nothing)
  have hcp : c ∈ (Id.run (s.pass Pass.nothing)).settled := hp.mem_settled_iff.mpr hc
  have hc' : (t.get? c).isSome := by rwa [← hagree.get?]
  obtain ⟨text, htext⟩ :=
    Option.isSome_iff_exists.mp (Std.TreeMap.mem_iff_isSome_getElem?.mp hcp)
  refine ⟨text, ?_, ?_⟩
  · rw [recalculate_eq]
    refine (s.satisfiesM_pass volatile).map fun {q} hq => ?_
    rw [← htext]
    exact (hp.getElem?_eq hq hcp (hq.mem_settled_iff.mpr hc) (.refl s c) hcalm).symm
  · rw [recalculate_eq]
    refine (t.satisfiesM_pass volatile').map fun {q} hq => ?_
    rw [← htext]
    exact (hp.getElem?_eq hq hcp (hq.mem_settled_iff.mpr hc') hagree hcalm).symm

/-! ### A sheet before and after an edit -/

theorem LeadsTo.mem {l : List Address} {a : Address} (hl : ∀ b ∈ l, ∀ d ∈ s.readsOf b, d ∈ l)
    (hc : c ∈ l) (h : s.LeadsTo c a) : a ∈ l := by
  induction h with
  | refl => exact hc
  | tail _ hbd ih => exact hl _ ih _ hbd

/-- `B1` adds up `C2` and `C3`, which is empty; `A1` changes, and `D1` and `E1` lie on a cycle that
reads `B1`. -/
def draft : Store :=
  Store.empty {}
    |>.insert ⟨0, 1⟩ "=SUM(C2:C3)*2" (by decide) (by decide)
    |>.insert ⟨1, 2⟩ "21" (by decide) (by decide)
    |>.insert ⟨0, 0⟩ "=RAND()" (by decide) (by decide)
    |>.insert ⟨0, 3⟩ "=B1+E1" (by decide) (by decide)
    |>.insert ⟨0, 4⟩ "=D1" (by decide) (by decide)

/-- The same with other cells around `B1`. -/
def revision : Store :=
  Store.empty {}
    |>.insert ⟨0, 1⟩ "=SUM(C2:C3)*2" (by decide) (by decide)
    |>.insert ⟨1, 2⟩ "21" (by decide) (by decide)
    |>.insert ⟨0, 0⟩ "=B1" (by decide) (by decide)

/-- What the formulas of the two sheets say about `B1` and `C2`, and about the rest of the first. -/
theorem draft_formulas :
    (∀ a ∈ ([⟨0, 1⟩, ⟨1, 2⟩] : List Address), ∀ b ∈ draft.readsOf a, b = ⟨1, 2⟩) ∧
    draft.readsOf ⟨1, 2⟩ = [] ∧
    (∀ a ∈ ([⟨0, 1⟩, ⟨1, 2⟩] : List Address), ∀ program ∈ draft.program? a,
      program.callsVolatile = false ∧ ∀ b ∈ program.cells, draft.get? b = revision.get? b) ∧
    ¬ draft.Steady ∧ draft.Reads ⟨0, 3⟩ ⟨0, 4⟩ ∧ draft.Reads ⟨0, 4⟩ ⟨0, 3⟩ := by
  decide +kernel

theorem draft_leadsTo {a : Address} (h : draft.LeadsTo ⟨0, 1⟩ a) :
    a ∈ ([⟨0, 1⟩, ⟨1, 2⟩] : List Address) := by
  refine h.mem (fun b hb d hd => ?_) (by decide)
  simp [draft_formulas.1 b hb d hd]

theorem draft_agreesFrom : draft.AgreesFrom revision ⟨0, 1⟩ where
  limits := rfl
  get? := by cbv
  mentioned a program ha hprogram :=
    (draft_formulas.2.2.1 a (draft_leadsTo ha) program hprogram).2

theorem draft_calmFrom : draft.CalmFrom ⟨0, 1⟩ where
  acyclic a ha hc := by
    -- a cell on a cycle is read by a cell that `B1` leads to, so it is `C2`, which reads nothing
    obtain ⟨b, hab, hba⟩ := TransGen.tail'_iff.mp hc
    obtain ⟨d, had, -⟩ := TransGen.head'_iff.mp hc
    obtain rfl := draft_formulas.1 b (draft_leadsTo (ReflTransGen.trans ha hab)) a hba
    rw [Reads, draft_formulas.2.1] at had
    cases had
  steady a program ha hprogram :=
    (draft_formulas.2.2.1 a (draft_leadsTo ha) program hprogram).1

/-- The cells around `B1` have changed, and `B1` still shows the same. -/
theorem draft_local : (draft.get? ⟨0, 1⟩).isSome ∧ draft.AgreesFrom revision ⟨0, 1⟩ ∧
    draft.CalmFrom ⟨0, 1⟩ ∧ ¬ draft.Steady ∧ draft.OnCycle ⟨0, 3⟩ ∧
    ∃ text,
      SatisfiesM (m := StateM Nat) (fun r => r.shown[(⟨0, 1⟩ : Address)]? = some text)
        (draft.recalculate fun _ count => (.number (Float.ofNat count), count + 1)) ∧
      (Id.run (revision.recalculate Pass.nothing)).shown[(⟨0, 1⟩ : Address)]? = some text := by
  obtain ⟨-, -, -, hsteady, hread, hback⟩ := draft_formulas
  have hc : (draft.get? ⟨0, 1⟩).isSome := by cbv
  have hcycle : draft.OnCycle ⟨0, 3⟩ := (TransGen.single hread).tail hback
  obtain ⟨text, hdraft, hrevision⟩ := recalculate_local (m := StateM Nat) (n := Id) hc
    draft_agreesFrom draft_calmFrom (fun _ count => (.number (Float.ofNat count), count + 1))
    Pass.nothing
  have hshown := SatisfiesM_Id_eq.mp hrevision
  exact ⟨hc, draft_agreesFrom, draft_calmFrom, hsteady, hcycle, text, hdraft, hshown⟩

end Store

end Spreadsheet
