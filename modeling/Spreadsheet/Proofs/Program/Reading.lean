import Spreadsheet.Recalculation

/-! # What a program reads

A program that calls no function that changes is a function of the cells it reads: wherever it
runs, it has no effects, and its text is `Program.shownFrom view`, where `view` says what the
cells pass on (`Program.shown_eq_pure`). Only the cells in `Program.cells` matter
(`Program.shownFrom_congr`). -/

namespace Spreadsheet

variable {m : Type → Type} [Monad m]

/-- A source in which every cell passes on what `view` says; functions that change give nothing. -/
def Source.ofView (view : Address → Scalar) : Source Id where
  cell a := pure (view a)
  volatile _ := pure .empty

/-- The text that a cell with the program shows if all cells pass on what `view` says. -/
def Program.shownFrom (view : Address → Scalar) (p : Program) : String :=
  Id.run (p.shown (Source.ofView view))

namespace Instruction

/-- The cells that an instruction reads, in order. -/
def cells : Instruction → List Address
  | push o => o.cells
  | _ => []

/-- Whether an instruction calls a function that changes. -/
def callsVolatile : Instruction → Bool
  | call name _ => (Function.named? name).any Function.isVolatile
  | _ => false

end Instruction

/-! ### Computations without effects -/

/-- The first computation has no effects and gives what the second one gives. -/
def Gives {α : Type} (x : ExceptT EvalError m α) (y : ExceptT EvalError Id α) : Prop :=
  x.run = pure (Id.run y.run)

namespace Gives

variable {α β : Type}

theorem pure (a : α) : Gives (m := m) (Pure.pure a) (Pure.pure a) := rfl

theorem throw (e : EvalError) : Gives (m := m) (α := α) (throw e) (throw e) := rfl

theorem except (x : Except EvalError α) :
    Gives (m := m) (ExceptT.mk (Pure.pure x)) (ExceptT.mk (Pure.pure x)) := rfl

variable [LawfulMonad m]

theorem lift {x : m α} {y : Id α} (h : x = Pure.pure (Id.run y)) :
    Gives (ExceptT.lift x) (ExceptT.lift y) := by
  subst h
  simp [Gives]

theorem bind {x : ExceptT EvalError m α} {y : ExceptT EvalError Id α}
    {f : α → ExceptT EvalError m β} {g : α → ExceptT EvalError Id β} (h : Gives x y)
    (hf : ∀ a, y.run = Pure.pure (.ok a) → Gives (f a) (g a)) : Gives (x >>= f) (y >>= g) := by
  unfold Gives at *
  rw [ExceptT.run_bind, ExceptT.run_bind, h, pure_bind]
  cases hy : Id.run y.run with
  | ok a => simpa [hy] using hf a hy
  | error e => simp [hy]

end Gives

/-! ### One instruction -/

section

variable [LawfulMonad m] {src : Source m} {view : Address → Scalar}

theorem mapM_cell {as : List Address} (h : ∀ a ∈ as, src.cell a = pure (view a)) :
    as.mapM src.cell = pure (as.map view) := by
  induction as with
  | nil => simp
  | cons a as ih =>
    rw [List.mapM_cons, h a List.mem_cons_self, pure_bind,
      ih fun b hb => h b (List.mem_cons_of_mem a hb), pure_bind, List.map_cons]

theorem Operand.evaluate_eq_pure {o : Operand} (h : ∀ a ∈ o.cells, src.cell a = pure (view a)) :
    o.evaluate src = pure (Id.run (o.evaluate (.ofView view))) := by
  cases o with
  | number x => rfl
  | text s => rfl
  | ref a =>
    rw [evaluate, h a (by simp [cells]), pure_bind]
    rfl
  | range r =>
    have hsrc : r.cells.mapM src.cell = pure (r.cells.map view) := mapM_cell h
    have hview : r.cells.mapM (Source.ofView view).cell = pure (r.cells.map view) :=
      mapM_cell fun a _ => rfl
    rw [evaluate, evaluate, hsrc, hview, pure_bind, pure_bind]
    rfl

theorem Function.resolve_eq_ok {name : String} {given : Nat} {f : Function}
    (h : Function.resolve name given = .ok f) : Function.named? name = some f := by
  unfold resolve at h
  split at h
  · cases h
  · next g hg =>
    split at h
    · cases h
    · split at h
      · split at h <;> cases h
        exact hg
      · cases h
        exact hg

theorem Function.call_gives {name : String} (args : List Value)
    (h : (Function.named? name).any Function.isVolatile = false) :
    Gives (Function.call src name args) (Function.call (.ofView view) name args) := by
  refine Gives.bind (Gives.except _) fun f hf => Gives.lift ?_
  have hfixed : f.isVolatile = false := by simpa [resolve_eq_ok hf] using h
  cases f with
  | fixed g => rfl
  | volatile v => cases hfixed

/-- An instruction that calls no function that changes depends on the cells it reads alone. -/
theorem Instruction.run_gives {i : Instruction} (stack : List Value)
    (hcells : ∀ a ∈ i.cells, src.cell a = pure (view a)) (hi : i.callsVolatile = false) :
    Gives (i.run src stack) (i.run (.ofView view) stack) := by
  cases i with
  | push o =>
    exact Gives.bind (Gives.lift (Operand.evaluate_eq_pure hcells)) fun v _ => Gives.pure _
  | negate => cases stack <;> rfl
  | operator o =>
    match stack with
    | [] => rfl
    | [_] => rfl
    | _ :: _ :: _ => rfl
  | call name count =>
    simp only [run]
    split
    · exact Gives.throw _
    · exact Gives.bind (Function.call_gives _ hi) fun v _ => Gives.pure _
  | failure marker => exact Gives.throw _

/-! ### Whole programs -/

namespace Program

theorem callsVolatile_cons (i : Instruction) (p : Program) :
    callsVolatile (i :: p) = (i.callsVolatile || p.callsVolatile) := by
  unfold callsVolatile
  rw [List.any_cons]
  cases i <;> rfl

theorem run_gives (p : Program) (stack : List Value)
    (hcells : ∀ i ∈ p, ∀ a ∈ i.cells, src.cell a = pure (view a)) (hp : p.callsVolatile = false) :
    Gives (p.run src stack) (p.run (.ofView view) stack) := by
  induction p generalizing stack with
  | nil => exact Gives.pure _
  | cons i p ih =>
    rw [callsVolatile_cons, Bool.or_eq_false_iff] at hp
    refine Gives.bind (Instruction.run_gives stack (hcells i List.mem_cons_self) hp.1) ?_
    exact fun stack _ => ih stack (fun j hj => hcells j (List.mem_cons_of_mem i hj)) hp.2

theorem mem_cells {p : Program} {a : Address} (hp : p.firstFailure? = none) :
    a ∈ p.cells ↔ ∃ i ∈ p, a ∈ i.cells := by
  unfold cells
  rw [if_neg (by simp [hp]), List.mem_flatMap]
  refine exists_congr fun i => and_congr_right fun _ => ?_
  cases i <;> rfl

theorem evaluate_gives {p : Program} (hcells : ∀ a ∈ p.cells, src.cell a = pure (view a))
    (hp : p.callsVolatile = false) : Gives (p.evaluate src) (p.evaluate (.ofView view)) := by
  unfold evaluate
  cases hfail : p.firstFailure? with
  | some marker => exact Gives.throw _
  | none =>
    have hrun : Gives (p.run src []) (p.run (.ofView view) []) :=
      run_gives p [] (fun i hi a ha => hcells a ((mem_cells hfail).mpr ⟨i, hi, ha⟩)) hp
    dsimp only
    split
    · exact Gives.throw _
    · refine Gives.bind hrun fun stack _ => ?_
      match stack with
      | [] => exact Gives.throw _
      | [v] => exact Gives.pure _
      | _ :: _ :: _ => exact Gives.throw _

/-- **A program that calls no function that changes is a function of the cells it reads.** -/
theorem shown_eq_pure {p : Program} (hcells : ∀ a ∈ p.cells, src.cell a = pure (view a))
    (hp : p.callsVolatile = false) : p.shown src = pure (p.shownFrom view) := by
  have h : (p.evaluate src).run = pure (Id.run (p.evaluate (.ofView view)).run) :=
    evaluate_gives hcells hp
  rw [shown, h, pure_bind]
  rfl

/-- Only the cells that a program reads matter for its text. -/
theorem shownFrom_congr {view' : Address → Scalar} {p : Program}
    (h : ∀ a ∈ p.cells, view a = view' a) (hp : p.callsVolatile = false) :
    p.shownFrom view = p.shownFrom view' := by
  have hcells : ∀ a ∈ p.cells, (Source.ofView view).cell a = pure (view' a) :=
    fun a ha => congrArg pure (h a ha)
  exact shown_eq_pure hcells hp

theorem shownFrom_single {p : Program} {a : Address} (hcells : p.cells = [a])
    (hp : p.callsVolatile = false) : p.shownFrom view = p.shownFrom fun _ => view a := by
  refine shownFrom_congr (fun b hb => ?_) hp
  rw [hcells, List.mem_singleton] at hb
  rw [hb]

end Program

end

end Spreadsheet
