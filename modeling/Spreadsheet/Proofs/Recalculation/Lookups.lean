import Spreadsheet.Proofs.Pass.Run
import Spreadsheet.Proofs.Program.Balance
import Spreadsheet.Proofs.Recalculation.Locality

/-! # What formulas look up

The cells that a formula waits for are listed from its program alone (`Program.reads`), and its
evaluation looks cells up as it goes. The two agree (`Program.lookups_reads`): the cells with a text
that are looked up are the first ones of the list, and all of them unless the evaluation ends early.

So when a pass evaluates a formula, the cells with a text that it looks up are settled or wait:
`Store.lookups_held`. -/

namespace Spreadsheet

/-! ### The list and the evaluation -/

namespace Program

variable {σ : Type}

/-- **The cells with a text that an evaluation looks up are the first ones of the list**, in the
same order and as often, and all of them if it succeeds. -/
theorem lookups_reads (s : Store) (p : Program) (src : Source (StateM σ)) (st : σ) :
    (p.lookups src st).filter (fun a => (s.get? a).isSome) <+: p.reads s ∧
    ((∃ v, ((p.evaluate src).run.run st).1 = .ok v) →
      (p.lookups src st).filter (fun a => (s.get? a).isSome) = p.reads s) ∧
    ((∃ marker, .failure marker ∈ p) → p.lookups src st = [] ∧ p.reads s = []) := by
  obtain ⟨hlookups, hfault⟩ := p.evaluate_course src st
  obtain ⟨hfirst, heq⟩ := p.course_reads
  rw [hlookups]
  refine ⟨hfirst.filter _, fun ⟨v, hv⟩ => ?_, fun ⟨marker, hmarker⟩ => ?_⟩
  · have hnone : p.course.fault = none := by
      rw [Option.eq_none_iff_forall_ne_some]
      intro f hf
      rw [← hfault, hv] at hf
      cases hf
    rw [heq hnone, reads]
  · obtain ⟨hreads, hcells⟩ := reads_of_failure hmarker
    rw [reads, hcells]
    exact ⟨hreads, rfl⟩

end Program

/-! ### The evaluations of a pass -/

namespace Pass

variable {σ : Type} {s : Store} {p : Pass} {f : Frame} {rest : List Frame}

/-- **The cells with a text that a formula looks up are settled or wait** when a pass finishes the
formula. No other cells are. -/
theorem Sound.held_iff (h : Sound s [] p) (hw : p.waiting = f :: rest) (hu : f.unread = [])
    {src : Source (StateM σ)} {st : σ} {a : Address} (ha : a ∈ f.program.lookups src st) :
    (s.get? a).isSome ↔ a ∈ p.settled ∨ a ∈ p.underway := by
  have hf : f ∈ p.waiting := by
    rw [hw]
    exact List.mem_cons_self
  constructor
  · intro hsome
    have hreads : s.Reads f.address a := by
      rw [Store.Reads, Store.readsOf_program (h.program f hf)]
      exact (f.program.lookups_reads s src st).1.subset (List.mem_filter.mpr ⟨ha, hsome⟩)
    rcases h.closed.waiting f hf a hreads with hnext | hunread | hheld
    · cases hnext
    · rw [hu] at hunread
      cases hunread
    · rwa [h.underway_iff]
  · rintro (hsettled | hunderway)
    · exact h.stored a hsettled
    · obtain ⟨g, hg, rfl⟩ := List.mem_map.mp ((h.underway_iff a).mp hunderway)
      exact Store.isSome_of_program? (h.program g hg)

end Pass

/-- **What formulas look up agrees with what they wait for.** Of the cells with a text, an
evaluation looks up the first ones that are listed for the program, and all of them if it succeeds;
a malformed program looks up none and none are listed. A pass goes from stage to stage to its end,
and at each stage where it evaluates a formula the cells looked up that have a text are the ones
that are settled or wait. -/
theorem Store.lookups_held (s : Store) :
    (∀ {σ : Type} (p : Program) (src : Source (StateM σ)) (st : σ),
      (p.lookups src st).filter (fun a => (s.get? a).isSome) <+: p.reads s ∧
      ((∃ v, ((p.evaluate src).run.run st).1 = .ok v) →
        (p.lookups src st).filter (fun a => (s.get? a).isSome) = p.reads s) ∧
      ((∃ marker, .failure marker ∈ p) → p.lookups src st = [] ∧ p.reads s = [])) ∧
    ∀ {σ : Type} (volatile : Volatile → StateM σ Scalar) (roots : List Address) (st : σ),
      (∃ g, Pass.Reached s volatile roots st g ∧ g.todo = [] ∧ g.pass.waiting = [] ∧
        (Pass.visitAll s volatile {} roots).run st = (g.pass, g.state)) ∧
      ∀ g f rest, Pass.Reached s volatile roots st g → g.pass.waiting = f :: rest →
        f.unread = [] → ∀ a ∈ f.program.lookups (g.pass.source volatile) g.state,
          ((s.get? a).isSome ↔ a ∈ g.pass.settled ∨ a ∈ g.pass.underway) := by
  refine ⟨fun p src st => p.lookups_reads s src st, fun volatile roots st =>
    ⟨Pass.reached_visitAll s volatile roots st, fun g f rest hg hw hu a ha => ?_⟩⟩
  exact hg.sound.held_iff hw hu ha

/-- When the sum in `B1` is evaluated, it looks up `C2` and `C3`. -/
theorem Store.draft_lookups (volatile : Volatile → StateM Unit Scalar) : ∃ g f rest,
    Pass.Reached draft volatile [⟨0, 1⟩] () g ∧ g.pass.waiting = f :: rest ∧ f.unread = [] ∧
      f.program.lookups (g.pass.source volatile) g.state = [⟨1, 2⟩, ⟨2, 2⟩] := by
  let program := Program.ofSource draft.limits "=SUM(C2:C3)*2"
  obtain ⟨hreads, hcourse⟩ : program.reads draft = [⟨1, 2⟩] ∧
      program.course.reads = [⟨1, 2⟩, ⟨2, 2⟩] := by decide +kernel
  obtain ⟨hformula, hvalue⟩ : draft.get? ⟨0, 1⟩ = some "=SUM(C2:C3)*2" ∧
      draft.program? ⟨1, 2⟩ = none := by decide +kernel
  let p : Pass := Pass.suspend draft {} ⟨0, 1⟩ "=SUM(C2:C3)*2"
  have hp : Pass.enter draft {} ⟨0, 1⟩ = p := by
    simp only [Pass.enter, hformula]
    rfl
  have hvisit : Pass.Turn draft volatile ⟨[⟨0, 1⟩], {}, ()⟩ ⟨[], p, ()⟩ := by
    rw [← hp]
    exact .visit rfl
  have hw : p.waiting = [⟨⟨0, 1⟩, program, [⟨1, 2⟩]⟩] := by
    rw [Pass.waiting_suspend, ← hreads]
  have htake : Pass.Turn draft volatile ⟨[], p, ()⟩
      ⟨[], Pass.enter draft { p with waiting := [⟨⟨0, 1⟩, program, []⟩] } ⟨1, 2⟩, ()⟩ :=
    .take hw rfl
  refine ⟨_, ⟨⟨0, 1⟩, program, []⟩, [], (Relation.ReflTransGen.single hvisit).tail htake, ?_, rfl,
    ?_⟩
  · exact (Pass.entered ..).waiting_eq hvalue
  · exact (program.evaluate_course _ _).1.trans hcourse

/-- By then `C2` is settled; `C3` is no cell. -/
theorem Store.draft_lookups_held : ∃ g f rest,
    Pass.Reached draft (fun _ => pure .empty) [⟨0, 1⟩] () g ∧ g.pass.waiting = f :: rest ∧
      f.unread = [] ∧
      (⟨1, 2⟩ ∈ g.pass.settled ∨ ⟨1, 2⟩ ∈ g.pass.underway) ∧
      ¬(⟨2, 2⟩ ∈ g.pass.settled ∨ ⟨2, 2⟩ ∈ g.pass.underway) := by
  obtain ⟨g, f, rest, hg, hw, hu, hlookups⟩ := draft_lookups fun _ => pure .empty
  have hheld := (draft.lookups_held.2 (fun _ => pure .empty) [⟨0, 1⟩] ()).2 g f rest hg hw hu
  rw [hlookups] at hheld
  refine ⟨g, f, rest, hg, hw, hu, (hheld _ (by simp)).mp (by decide +kernel), fun h => ?_⟩
  have hsome := (hheld ⟨2, 2⟩ (by simp)).mpr h
  revert hsome
  decide +kernel

end Spreadsheet
