import Spreadsheet.Recalculation

/-! # Renaming functions

Compiling does not look at the names of functions: a formula whose calls have other names compiles
to the same program with these names (`Program.ofItems_rename`). Evaluating does nothing with a name
but look it up. So if the new names are names of the same functions, the program reads the same
cells (`Program.reads_rename`) and shows the same text (`Program.shown_rename`), wherever it reads
from. Only the wording of an error may differ, which no cell shows: the two evaluations are `Alike`.
-/

namespace Spreadsheet

variable {f : String → String}

/-! ### Compiling -/

/-- An item with another name of its function, if it is a call. -/
def Item.rename (f : String → String) : Item → Item
  | call name => call (f name)
  | i => i

/-- An instruction with another name of its function, if it is a call. -/
def Instruction.rename (f : String → String) : Instruction → Instruction
  | call name count => call (f name) count
  | i => i

/-- A program with other names of its functions. -/
def Program.rename (f : String → String) (p : Program) : Program := p.map (Instruction.rename f)

namespace Pending

/-- What waits, with another name of its function, if it is a call. -/
def rename (f : String → String) : Pending → Pending
  | call name commas => call (f name) commas
  | p => p

theorem precedence?_rename (p : Pending) : (p.rename f).precedence? = p.precedence? := by
  cases p <;> rfl

/-- No name is left of a call that the formula does not close. -/
theorem instruction_rename (p : Pending) :
    (p.rename f).instruction = p.instruction.rename f := by
  cases p <;> rfl

end Pending

namespace Compilation

/-- A formula that is being compiled, with other names of its functions. -/
def rename (f : String → String) (c : Compilation) : Compilation :=
  { c with
    program := c.program.map (Instruction.rename f)
    pending := c.pending.map (Pending.rename f) }

variable (c : Compilation)

theorem settle_rename (bound : Nat → Bool) (program : Array Instruction) (pending : List Pending) :
    settle bound (program.map (Instruction.rename f)) (pending.map (Pending.rename f)) =
      ((settle bound program pending).1.map (Instruction.rename f),
        (settle bound program pending).2.map (Pending.rename f)) := by
  induction pending generalizing program with
  | nil => rfl
  | cons p rest ih =>
    rw [List.map_cons, settle, settle, p.precedence?_rename]
    split
    · rw [p.instruction_rename, ← Array.map_push, ih]
    · rfl

theorem emit_rename (i : Instruction) :
    (c.rename f).emit (i.rename f) = (c.emit i).rename f := by
  simp only [emit, rename, Array.map_push]

theorem release_rename (bound : Nat → Bool) :
    (c.rename f).release bound = (c.release bound).rename f := by
  simp only [release, rename, settle_rename]

theorem await_rename (p : Pending) :
    (c.rename f).await (p.rename f) = (c.await p).rename f := rfl

theorem between_rename (o : Operator) : (c.rename f).between o = (c.between o).rename f := by
  rw [between, between, release_rename]
  exact await_rename _ (.operator o)

theorem separate_rename : (c.rename f).separate = c.separate.rename f := by
  unfold separate releaseAll
  rw [release_rename]
  rcases hpending : (c.release fun _ => true).pending with _ | ⟨_ | _ | _ | _, rest⟩
  all_goals simp [rename, hpending, emit, Instruction.rename, Pending.rename]

theorem close_rename (opened : Bool) : (c.rename f).close opened = (c.close opened).rename f := by
  unfold close releaseAll
  rw [release_rename]
  rcases hpending : (c.release fun _ => true).pending with _ | ⟨_ | _ | _ | _, rest⟩
  all_goals simp [rename, hpending, emit, Instruction.rename, Pending.rename]

/-- **Each item adds the same under other names.** -/
theorem step_rename (i : Item) : (c.rename f).step (i.rename f) = (c.step i).rename f := by
  cases i with
  | operand o => exact emit_rename { c with opened := false } (.push o)
  | failure m => exact emit_rename { c with opened := false } (.failure m)
  | leftParen => exact await_rename { c with opened := false } .paren
  | call name => rfl
  | comma => exact separate_rename { c with opened := false }
  | rightParen => exact close_rename { c with opened := false } c.opened
  | operator o =>
    have hstep : ∀ d : Compilation, d.step (.operator o) =
        if d.wanting ∧ o = .add then { d with opened := false }
        else if d.wanting ∧ o = .subtract then
          { d with opened := false, pending := .negate :: d.pending }
        else { d with opened := false }.between o := fun _ => rfl
    rw [hstep c, apply_ite (rename f), apply_ite (rename f), ← between_rename]
    exact hstep (c.rename f)

/-- And so do all items of a formula. -/
theorem foldl_step_rename (is : List Item) :
    (is.map (Item.rename f)).foldl step (c.rename f) = (is.foldl step c).rename f := by
  induction is generalizing c with
  | nil => rfl
  | cons i is ih => rw [List.map_cons, List.foldl_cons, step_rename, ih, List.foldl_cons]

theorem finish_rename : (c.rename f).finish = c.finish.rename f := by
  have hpending : (c.pending.map (Pending.rename f)).map Pending.instruction =
      (c.pending.map Pending.instruction).map (Instruction.rename f) := by
    rw [List.map_map, List.map_map]
    exact List.map_congr_left fun p _ => p.instruction_rename
  simp only [finish, rename, Array.toList_map, hpending, Program.rename, List.map_append]

end Compilation

/-- **A formula compiles to the same program under other names.** -/
theorem Program.ofItems_rename (is : List Item) :
    ofItems (is.map (Item.rename f)) = (ofItems is).rename f := by
  have hempty : Compilation.rename f {} = {} := by simp [Compilation.rename]
  have hfold := Compilation.foldl_step_rename {} is (f := f)
  rw [hempty] at hfold
  rw [ofItems, hfold, Compilation.finish_rename, ofItems]

/-! ### Reading -/

namespace Program

theorem firstFailure?_rename (p : Program) :
    (p.rename f).firstFailure? = p.firstFailure? := by
  rw [firstFailure?, rename, List.findSome?_map, firstFailure?]
  congr 1
  funext i
  cases i <;> rfl

theorem cells_rename (p : Program) : (p.rename f).cells = p.cells := by
  rw [cells, firstFailure?_rename, rename, List.flatMap_map, cells]
  congr 2
  funext i
  cases i <;> rfl

/-- **A program reads the same cells under other names.** -/
theorem reads_rename (s : Store) (p : Program) : (p.rename f).reads s = p.reads s := by
  rw [reads, cells_rename, reads]

end Program

/-! ### Evaluating -/

section

variable {m : Type → Type} [Monad m] {α β : Type}

/-- Two computations do the same and have the same outcome, up to the wording of an error. -/
def Alike (x y : ExceptT EvalError m α) : Prop :=
  Except.mapError EvalError.toMarker <$> x.run = Except.mapError EvalError.toMarker <$> y.run

variable [LawfulMonad m]

/-- Computations that are alike may be continued alike. -/
theorem Alike.bind {x y : ExceptT EvalError m α} {g h : α → ExceptT EvalError m β}
    (hxy : Alike x y) (hgh : ∀ a, Alike (g a) (h a)) : Alike (x >>= g) (y >>= h) := by
  -- the continuation does not see how an error is worded
  have hbind : ∀ (z : ExceptT EvalError m α) (k : α → ExceptT EvalError m β),
      Except.mapError EvalError.toMarker <$> (z >>= k).run =
        Except.mapError EvalError.toMarker <$> z.run >>= fun
          | .ok a => Except.mapError EvalError.toMarker <$> (k a).run
          | .error marker => pure (.error marker) := by
    intro z k
    rw [ExceptT.run_bind, map_bind, bind_map_left]
    refine bind_congr fun r => ?_
    cases r with
    | ok a => rfl
    | error e => exact map_pure _ _
  rw [Alike, hbind, hbind, hxy]
  refine bind_congr fun r => ?_
  cases r with
  | ok a => exact hgh a
  | error marker => rfl

variable (hf : ∀ name, Function.named? (f name) = Function.named? name)
include hf

theorem Function.resolve_rename (name : String) (given : Nat) :
    (resolve (f name) given).mapError EvalError.toMarker =
      (resolve name given).mapError EvalError.toMarker := by
  rw [resolve, hf, resolve]
  cases named? name <;> rfl

theorem Function.call_rename (src : Source m) (name : String) (args : List Value) :
    Alike (call src (f name) args) (call src name args) := by
  refine Alike.bind ?_ fun _ => rfl
  rw [Alike, ExceptT.run_mk, ExceptT.run_mk, map_pure, map_pure, resolve_rename hf]

theorem Instruction.run_rename (src : Source m) (stack : List Value) (i : Instruction) :
    Alike ((i.rename f).run src stack) (i.run src stack) := by
  cases i with
  | call name count =>
    simp only [rename, run]
    split
    · rfl
    · exact (Function.call_rename hf src name _).bind fun _ => rfl
  | push o => rfl
  | negate => rfl
  | operator o => rfl
  | failure marker => rfl

theorem Program.run_rename (src : Source m) (p : Program) (stack : List Value) :
    Alike ((p.rename f).run src stack) (p.run src stack) := by
  induction p generalizing stack with
  | nil => rfl
  | cons i p ih => exact (i.run_rename hf src stack).bind ih

theorem Program.evaluate_rename (src : Source m) (p : Program) :
    Alike ((p.rename f).evaluate src) (p.evaluate src) := by
  have hempty : (p.rename f).isEmpty = p.isEmpty := List.isEmpty_map
  rw [evaluate, firstFailure?_rename, hempty, evaluate]
  split
  · rfl
  · split
    · rfl
    · exact (p.run_rename hf src []).bind fun _ => rfl

/-- **A program shows the same text under other names of the same functions.** -/
theorem Program.shown_rename (src : Source m) (p : Program) :
    (p.rename f).shown src = p.shown src := by
  -- a cell shows nothing of an error but its marker
  have hshown : ∀ x : ExceptT EvalError m Value, EvalError.shown <$> x.run =
      (fun | .ok v => v.shown | .error marker => marker.text) <$>
        Except.mapError EvalError.toMarker <$> x.run := by
    intro x
    rw [Functor.map_map]
    exact map_congr fun r => by cases r <;> rfl
  rw [shown, bind_pure_comp, hshown, p.evaluate_rename hf src, ← hshown, shown, bind_pure_comp]

end

end Spreadsheet
