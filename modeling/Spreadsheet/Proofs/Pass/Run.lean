import Spreadsheet.Proofs.Pass.Line

/-! # The run of a pass

A pass as a sequence of single turns: `Pass.Turn` takes one stage of a run to the next, and a stage
has the cells that are still to be visited, the pass so far, and the state of the functions that
change. A pass visits the cells by such turns until none is left (`Pass.reached_visitAll`), so what
every turn keeps holds at every stage on the way and not only in the end
(`Pass.Invariant.reached`). -/

namespace Spreadsheet.Pass

open Relation

variable {σ : Type} {s : Store} {volatile : Volatile → StateM σ Scalar}

/-- Where a run stands. -/
structure Stage (σ : Type) where
  /-- The cells that are visited when no formula waits any more. -/
  todo : List Address
  pass : Pass
  /-- What functions that change read and write. -/
  state : σ

/-- **One turn of a pass**: it visits the next cell if no formula waits, starts on the next cell
that the latest waiting formula has to read, or finishes that formula if it has read everything. -/
inductive Turn (s : Store) (volatile : Volatile → StateM σ Scalar) : Stage σ → Stage σ → Prop
  | visit {a todo p st} (hw : p.waiting = []) :
    Turn s volatile ⟨a :: todo, p, st⟩ ⟨todo, p.enter s a, st⟩
  | take {todo p st f rest a unread} (hw : p.waiting = f :: rest) (hu : f.unread = a :: unread) :
    Turn s volatile ⟨todo, p, st⟩
      ⟨todo, enter s { p with waiting := { f with unread } :: rest } a, st⟩
  | finish {todo p st f rest text st'} (hw : p.waiting = f :: rest) (hu : f.unread = [])
      (ht : (f.program.shown (p.source volatile)).run st = (text, st')) :
    Turn s volatile ⟨todo, p, st⟩
      ⟨todo, settle { p with waiting := rest } f.address text, st'⟩

/-- The stages of the run that visits the cells `roots`. -/
def Reached (s : Store) (volatile : Volatile → StateM σ Scalar) (roots : List Address) (st : σ)
    (g : Stage σ) : Prop :=
  ReflTransGen (Turn s volatile) ⟨roots, {}, st⟩ g

/-- A cell without a formula never waits. -/
theorem Entered.waiting_eq {p q : Pass} {a : Address} (he : Entered s p a q)
    (h : s.program? a = none) : q.waiting = p.waiting := by
  cases he with
  | formula _ _ ht hf =>
    rw [Store.program?_formula ht hf] at h
    cases h
  | _ => rfl

/-! ### A pass takes these turns -/

theorem reaches_drain (s : Store) (volatile : Volatile → StateM σ Scalar) (todo : List Address)
    (p : Pass) : ∀ st : σ,
    ((drain s volatile p).run st).1.waiting = [] ∧
      ReflTransGen (Turn s volatile) ⟨todo, p, st⟩
        ⟨todo, ((drain s volatile p).run st).1, ((drain s volatile p).run st).2⟩ := by
  fun_induction drain s volatile p with
  | case1 p hw => exact fun st => ⟨hw, .refl⟩
  | case2 p f rest hw a unread hu ih => exact fun st => ⟨(ih st).1, (ih st).2.head (.take hw hu)⟩
  | case3 p f rest hw hu ih =>
    intro st
    rw [StateT.run_bind]
    rcases hrun : (f.program.shown (p.source volatile)).run st with ⟨text, st'⟩
    exact ⟨(ih text st').1, (ih text st').2.head (.finish hw hu hrun)⟩

theorem reaches_visitAll (s : Store) (volatile : Volatile → StateM σ Scalar)
    (roots : List Address) {p : Pass} (hw : p.waiting = []) (st : σ) :
    ((visitAll s volatile p roots).run st).1.waiting = [] ∧
      ReflTransGen (Turn s volatile) ⟨roots, p, st⟩ ⟨[], ((visitAll s volatile p roots).run st).1,
        ((visitAll s volatile p roots).run st).2⟩ := by
  induction roots generalizing p st with
  | nil => exact ⟨hw, .refl⟩
  | cons a roots ih =>
    have hcons : (visitAll s volatile p (a :: roots)).run st =
        (visitAll s volatile ((drain s volatile (p.enter s a)).run st).1 roots).run
          ((drain s volatile (p.enter s a)).run st).2 := by
      rw [visitAll, List.foldlM_cons, StateT.run_bind]
      rfl
    obtain ⟨hdrained, hdrain⟩ := reaches_drain s volatile roots (p.enter s a) st
    obtain ⟨hend, hrest⟩ := ih hdrained ((drain s volatile (p.enter s a)).run st).2
    rw [hcons]
    exact ⟨hend, (ReflTransGen.single (.visit hw)).trans (hdrain.trans hrest)⟩

/-- **A pass ends at a stage of its run** where no formula waits and no cell is left. -/
theorem reached_visitAll (s : Store) (volatile : Volatile → StateM σ Scalar)
    (roots : List Address) (st : σ) :
    ∃ g, Reached s volatile roots st g ∧ g.todo = [] ∧ g.pass.waiting = [] ∧
      (visitAll s volatile {} roots).run st = (g.pass, g.state) := by
  obtain ⟨hw, hrun⟩ := reaches_visitAll s volatile roots (p := {}) rfl st
  exact ⟨_, hrun, rfl, hw, rfl⟩

/-! ### What holds at every stage -/

variable {Inv : List Address → List Address → Pass → Prop} {g g' : Stage σ} {roots : List Address}
  {st : σ}

theorem Invariant.turn (h : Invariant s Inv) (ht : Turn s volatile g g')
    (hg : Inv [] g.todo g.pass) : Inv [] g'.todo g'.pass := by
  cases ht with
  | visit hw => exact h.enter (entered ..) (h.visit hw hg)
  | take hw hu => exact h.enter (entered ..) (h.take hw hu hg)
  | @finish todo p st f rest text st' hw hu ht =>
    refine h.finish hw hu (fun hv => ?_) hg
    have hshown : f.program.shown (p.source volatile) = pure (f.program.shownFrom p.reading) :=
      Program.shown_eq_pure (fun a _ => rfl) hv
    rw [hshown] at ht
    exact (congrArg Prod.fst ht).symm

/-- **What every turn keeps holds at every stage.** -/
theorem Invariant.reached (h : Invariant s Inv) (hroots : Inv [] roots {})
    (hg : Reached s volatile roots st g) : Inv [] g.todo g.pass := by
  induction hg with
  | refl => exact hroots
  | tail _ ht ih => exact h.turn ht ih

theorem Reached.sound (hg : Reached s volatile roots st g) : Sound s [] g.pass :=
  Sound.invariant.reached Sound.initial hg

end Spreadsheet.Pass
