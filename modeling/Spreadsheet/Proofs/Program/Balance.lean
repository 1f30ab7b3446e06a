import Spreadsheet.Proofs.Program.Course

/-! # Which programs succeed

What an evaluation reads, and whether and how it fails, is fixed before it looks at any cell:
`Program.course` tells it from the instructions alone, keeping count of the operands on the stack,
and every evaluation takes this course (`Program.follows`). So two evaluations of a program read the
same and fail alike wherever they read from, and a program succeeds exactly if it is in balance:
`Program.evaluate_blind`.

Reads are seen through a source that notes them. It does nothing else that the source does not do:
`Program.evaluate_noting`. What is read are the first ones of the cells that are listed for the
program (`Program.cells`), and all of them if it succeeds: `Program.course_reads`. -/

namespace Spreadsheet

/-! ### The course of a program -/

namespace Instruction

/-- How many operands an instruction takes from the stack. -/
def pops : Instruction → Nat
  | push _ | failure _ => 0
  | negate => 1
  | operator _ => 2
  | call _ count => count

/-- Why an instruction fails that finds its operands, if it does. -/
def fault? : Instruction → Option EvalError
  | call name count => Function.fault? name count
  | failure marker => some (.marker marker)
  | _ => none

/-- What an instruction does if there are `depth` operands on the stack. -/
def course (depth : Nat) (i : Instruction) : Course :=
  if depth < i.pops then { fault := some .missingOperand } else ⟨i.cells, i.fault?⟩

theorem course_of_lt {depth : Nat} {i : Instruction} (h : depth < i.pops) :
    i.course depth = { fault := some .missingOperand } := if_pos h

theorem course_of_le {depth : Nat} {i : Instruction} (h : i.pops ≤ depth) :
    i.course depth = ⟨i.cells, i.fault?⟩ := if_neg (Nat.not_lt.mpr h)

end Instruction

namespace Program

/-- What the rest of a program does if there are `depth` operands on the stack. -/
def courseOn : Nat → Program → Course
  | depth, [] => if depth = 1 then {} else { fault := some .leftover }
  | depth, i :: p => (i.course depth).andThen (courseOn (depth - i.pops + 1) p)

/-- **What the evaluation of a program does**, whatever the cells hold. -/
def course (p : Program) : Course :=
  match p.firstFailure? with
  | some marker => { fault := some (.marker marker) }
  | none => if p.isEmpty then { fault := some .emptyFormula } else p.courseOn 0

end Program

section

variable {σ : Type} (src : Source (StateM σ))

/-- An instruction puts one value in the place of those it takes. -/
theorem Instruction.follows (i : Instruction) (stack : List Value) :
    Follows (i.run src.noting stack) (i.course stack.length)
      fun stack' => stack'.length = stack.length - i.pops + 1 := by
  cases i with
  | push o =>
    rw [course_of_le (Nat.zero_le _), ← Course.andThen_nil ⟨_, _⟩]
    exact (o.follows src).bind fun v _ => Follows.pure (by simp [pops])
  | negate =>
    cases stack with
    | nil => exact Follows.throw _
    | cons v rest => exact Follows.pure (by simp [pops])
  | operator o =>
    match stack with
    | [] => exact Follows.throw _
    | [_] => exact Follows.throw _
    | b :: a :: rest =>
      rw [course_of_le (by simp [pops])]
      exact Follows.pure (by simp [pops])
  | call name count =>
    rw [run]
    split
    · next hcount =>
      rw [course_of_lt hcount]
      exact Follows.throw _
    · next hcount =>
      have hlength : (stack.take count).reverse.length = count := by simp; omega
      have hcall := Function.follows src name (stack.take count).reverse
      rw [hlength] at hcall
      rw [course_of_le (Nat.not_lt.mp hcount), ← Course.andThen_nil ⟨_, _⟩]
      exact hcall.bind fun v _ => Follows.pure (by simp [pops])
  | failure marker =>
    rw [course_of_le (Nat.zero_le _)]
    exact Follows.throw _

namespace Program

/-- The end of an evaluation, which checks that one value is left. -/
def outcome {m : Type → Type} [Monad m] : List Value → ExceptT EvalError m Value
  | [v] => return v
  | _ => throw .leftover

/-- The rest of a program, and the end of the evaluation. -/
theorem followsOn (p : Program) (stack : List Value) :
    Follows (p.run src.noting stack >>= outcome) (p.courseOn stack.length) fun _ => True := by
  induction p generalizing stack with
  | nil =>
    rw [run, pure_bind]
    rcases stack with _ | ⟨v, _ | ⟨w, rest⟩⟩
    · exact Follows.throw _
    · exact Follows.pure trivial
    · exact Follows.throw _
  | cons i p ih =>
    rw [run, courseOn, bind_assoc]
    refine (i.follows src stack).bind fun stack' hstack' => ?_
    rw [← hstack']
    exact ih stack'

/-- **Every evaluation of a program takes its course.** -/
theorem follows (p : Program) : Follows (p.evaluate src.noting) p.course fun _ => True := by
  unfold evaluate course
  cases p.firstFailure? with
  | some marker => exact Follows.throw _
  | none =>
    dsimp only
    split
    · exact Follows.throw _
    · exact followsOn src p []

end Program

end

/-! ### Balance -/

/-- A function has the given name and takes that many arguments. -/
def Function.Takes (name : String) (given : Nat) : Prop :=
  ∃ f, Function.named? name = some f ∧ f.arity.least ≤ given ∧ ∀ most ∈ f.arity.most, given ≤ most

theorem Function.fault?_eq_none {name : String} {given : Nat} :
    Function.fault? name given = none ↔ Function.Takes name given := by
  unfold fault? Takes
  cases named? name with
  | none => simp
  | some f =>
    by_cases hleast : given < f.arity.least
    · simp [hleast, Nat.not_le.mpr hleast]
    · cases hmost : f.arity.most with
      | none => simp [hleast, hmost, Nat.not_lt.mp hleast]
      | some most => simp [hleast, hmost, Nat.not_lt.mp hleast]

/-- A call names a function that takes as many arguments as it is given. -/
def Instruction.Callable : Instruction → Prop
  | call name count => Function.Takes name count
  | _ => True

/-- **From left to right every instruction finds its operands** on a stack with `depth` of them at
first, every call names a function that takes as many, and in the end one is left. -/
def Program.Balanced : Nat → Program → Prop
  | depth, [] => depth = 1
  | depth, i :: p => i.Callable ∧ i.pops ≤ depth ∧ Balanced (depth - i.pops + 1) p

theorem Instruction.fault_course_eq_none {i : Instruction} {depth : Nat}
    (hi : ∀ marker, i ≠ .failure marker) :
    (i.course depth).fault = none ↔ i.Callable ∧ i.pops ≤ depth := by
  have hfault : i.fault? = none ↔ i.Callable := by
    cases i with
    | call name count => exact Function.fault?_eq_none
    | failure marker => exact absurd rfl (hi marker)
    | _ => simp [fault?, Callable]
  unfold course
  split
  · simp; omega
  · simp [hfault]; omega

namespace Program

variable {p : Program}

theorem fault_courseOn_eq_none {depth : Nat} (hp : ∀ marker, .failure marker ∉ p) :
    (p.courseOn depth).fault = none ↔ p.Balanced depth := by
  induction p generalizing depth with
  | nil =>
    unfold courseOn Balanced
    split <;> simp [*]
  | cons i p ih =>
    have hi : ∀ marker, i ≠ .failure marker := by
      rintro marker rfl
      exact hp marker List.mem_cons_self
    rw [courseOn, Balanced, Course.fault_andThen_eq_none, Instruction.fault_course_eq_none hi,
      ih fun marker hm => hp marker (List.mem_cons_of_mem i hm), and_assoc]

theorem firstFailure?_eq_none : p.firstFailure? = none ↔ ∀ marker, .failure marker ∉ p := by
  unfold firstFailure?
  rw [List.findSome?_eq_none_iff]
  constructor
  · intro h marker hm
    have := h _ hm
    simp at this
  · intro h i hi
    cases i with
    | failure marker => exact absurd hi (h marker)
    | _ => rfl

/-- The course of a program ends without an error exactly if the program is in balance. -/
theorem fault_course_eq_none :
    p.course.fault = none ↔ (∀ marker, .failure marker ∉ p) ∧ p.Balanced 0 := by
  unfold course
  cases hfail : p.firstFailure? with
  | some marker =>
    have hmem : ¬ ∀ marker, .failure marker ∉ p := by
      rw [← firstFailure?_eq_none, hfail]
      simp
    simp [hmem]
  | none =>
    have hp := firstFailure?_eq_none.mp hfail
    cases p with
    | nil => simp [Balanced]
    | cons i p =>
      rw [and_iff_right hp, ← fault_courseOn_eq_none hp]
      rfl

/-! ### What is read and what is listed -/

theorem cells_eq_flatMap (hp : p.firstFailure? = none) :
    p.cells = p.flatMap Instruction.cells := by
  unfold cells
  rw [if_neg (by simp [hp])]
  refine congrArg (List.flatMap · p) (funext fun i => ?_)
  cases i with
  | push o => rfl
  | _ => rfl

/-- The rest of a program reads the first of the cells that its instructions name, and all of them
unless it fails. -/
theorem courseOn_reads (p : Program) (depth : Nat) :
    (p.courseOn depth).reads <+: p.flatMap Instruction.cells ∧
      ((p.courseOn depth).fault = none →
        (p.courseOn depth).reads = p.flatMap Instruction.cells) := by
  induction p generalizing depth with
  | nil =>
    rw [courseOn]
    split
    · exact ⟨List.prefix_refl [], fun _ => rfl⟩
    · exact ⟨List.prefix_refl [], fun _ => rfl⟩
  | cons i p ih =>
    rw [courseOn, List.flatMap_cons]
    rcases Nat.lt_or_ge depth i.pops with hlt | hle
    · rw [Instruction.course_of_lt hlt]
      exact ⟨List.nil_prefix, fun h => absurd h (Option.some_ne_none _)⟩
    · rw [Instruction.course_of_le hle, Course.andThen]
      cases i.fault? with
      | some f => exact ⟨List.prefix_append _ _, fun h => absurd h (Option.some_ne_none _)⟩
      | none =>
        obtain ⟨hfirst, heq⟩ := ih (depth - i.pops + 1)
        exact ⟨(List.prefix_append_right_inj _).mpr hfirst, fun h => congrArg _ (heq h)⟩

theorem course_reads (p : Program) :
    p.course.reads <+: p.cells ∧ (p.course.fault = none → p.course.reads = p.cells) := by
  unfold course
  cases hp : p.firstFailure? with
  | some marker => exact ⟨List.nil_prefix, fun h => absurd h (Option.some_ne_none _)⟩
  | none =>
    rw [cells_eq_flatMap hp]
    dsimp only
    split
    · exact ⟨List.nil_prefix, fun h => absurd h (Option.some_ne_none _)⟩
    · exact courseOn_reads p 0

/-- A malformed program reads nothing, and nothing is listed for it. -/
theorem reads_of_failure {marker : Marker} (h : .failure marker ∈ p) :
    p.course.reads = [] ∧ p.cells = [] := by
  obtain ⟨m, hm⟩ : ∃ m, p.firstFailure? = some m := by
    rw [← Option.ne_none_iff_exists', ne_eq, firstFailure?_eq_none]
    exact fun hp => hp marker h
  constructor
  · rw [course, hm]
  · rw [cells, hm]
    rfl

end Program

/-! ### Noting -/

section

variable {σ α β : Type}

/-- The first computation does what the second one does, and notes what it reads besides. -/
def Notes (x : ExceptT EvalError (StateM (List Address × σ)) α)
    (y : ExceptT EvalError (StateM σ) α) : Prop :=
  ∀ noted st, ∃ noted', x.run.run (noted, st) =
    ((y.run.run st).1, noted', (y.run.run st).2)

namespace Notes

theorem pure (a : α) : Notes (σ := σ) (Pure.pure a) (Pure.pure a) := fun noted _ => ⟨noted, rfl⟩

theorem throw (e : EvalError) : Notes (σ := σ) (α := α) (throw e) (throw e) :=
  fun noted _ => ⟨noted, rfl⟩

theorem except (x : Except EvalError α) :
    Notes (σ := σ) (ExceptT.mk (Pure.pure x)) (ExceptT.mk (Pure.pure x)) :=
  fun noted _ => ⟨noted, rfl⟩

theorem lift {x : StateM (List Address × σ) α} {y : StateM σ α}
    (h : ∀ noted st, ∃ noted', x.run (noted, st) = ((y.run st).1, noted', (y.run st).2)) :
    Notes (ExceptT.lift x) (ExceptT.lift y) := by
  intro noted st
  obtain ⟨noted', hrun⟩ := h noted st
  refine ⟨noted', ?_⟩
  rw [ExceptT.run_lift, ExceptT.run_lift, StateT.run_map, StateT.run_map, hrun]
  rfl

theorem bind {x : ExceptT EvalError (StateM (List Address × σ)) α}
    {y : ExceptT EvalError (StateM σ) α}
    {f : α → ExceptT EvalError (StateM (List Address × σ)) β}
    {g : α → ExceptT EvalError (StateM σ) β} (h : Notes x y) (hf : ∀ a, Notes (f a) (g a)) :
    Notes (x >>= f) (y >>= g) := by
  intro noted st
  obtain ⟨noted', hrun⟩ := h noted st
  rw [ExceptT.run_bind, ExceptT.run_bind, StateT.run_bind, StateT.run_bind, hrun]
  rcases y.run.run st with ⟨r, st'⟩
  cases r with
  | error e => exact ⟨noted', rfl⟩
  | ok a => exact hf a noted' st'

end Notes

variable (src : Source (StateM σ))

theorem run_mapM_cell (as noted : List Address) (st : σ) :
    ∃ noted', (as.mapM src.noting.cell).run (noted, st) =
      (((as.mapM src.cell).run st).1, noted', ((as.mapM src.cell).run st).2) := by
  induction as generalizing noted st with
  | nil => exact ⟨noted, rfl⟩
  | cons a as ih =>
    obtain ⟨noted', hrun⟩ := ih (noted ++ [a]) (src.cell a st).2
    refine ⟨noted', ?_⟩
    rw [List.mapM_cons, List.mapM_cons, StateT.run_bind, StateT.run_bind]
    show ((as.mapM src.noting.cell >>= fun vs => pure ((src.cell a st).1 :: vs)).run
      (noted ++ [a], (src.cell a st).2)) = _
    rw [StateT.run_bind, hrun]
    rfl

theorem Operand.evaluate_noting (o : Operand) :
    Notes (ExceptT.lift (o.evaluate src.noting)) (ExceptT.lift (o.evaluate src)) := by
  refine Notes.lift fun noted st => ?_
  cases o with
  | number x => exact ⟨noted, rfl⟩
  | text s => exact ⟨noted, rfl⟩
  | ref a => exact ⟨noted ++ [a], rfl⟩
  | range r =>
    obtain ⟨noted', hrun⟩ := run_mapM_cell src r.cells noted st
    refine ⟨noted', ?_⟩
    rw [evaluate, evaluate, StateT.run_bind, StateT.run_bind, hrun]
    rfl

theorem Function.call_noting (name : String) (args : List Value) :
    Notes (Function.call src.noting name args) (Function.call src name args) := by
  refine Notes.bind (Notes.except _) fun f => Notes.lift fun noted st => ?_
  cases f with
  | fixed g => exact ⟨noted, rfl⟩
  | volatile v => exact ⟨noted, rfl⟩

theorem Instruction.run_noting (i : Instruction) (stack : List Value) :
    Notes (i.run src.noting stack) (i.run src stack) := by
  cases i with
  | push o => exact (o.evaluate_noting src).bind fun v => Notes.pure _
  | negate =>
    cases stack with
    | nil => exact Notes.throw _
    | cons v rest => exact Notes.pure _
  | operator o =>
    match stack with
    | [] => exact Notes.throw _
    | [_] => exact Notes.throw _
    | _ :: _ :: _ => exact Notes.pure _
  | call name count =>
    simp only [run]
    split
    · exact Notes.throw _
    · exact (Function.call_noting src name _).bind fun v => Notes.pure _
  | failure marker => exact Notes.throw _

namespace Program

theorem run_noting (p : Program) (stack : List Value) :
    Notes (p.run src.noting stack) (p.run src stack) := by
  induction p generalizing stack with
  | nil => exact Notes.pure _
  | cons i p ih => exact (i.run_noting src stack).bind ih

/-- **Noting what is read changes nothing else.** -/
theorem evaluate_noting (p : Program) : Notes (p.evaluate src.noting) (p.evaluate src) := by
  unfold evaluate
  cases p.firstFailure? with
  | some marker => exact Notes.throw _
  | none =>
    dsimp only
    split
    · exact Notes.throw _
    · refine (p.run_noting src []).bind fun stack => ?_
      match stack with
      | [] => exact Notes.throw _
      | [v] => exact Notes.pure _
      | _ :: _ :: _ => exact Notes.throw _

/-- The cells that the evaluation of a program looks up from a state of the source, in order and
with repetitions. -/
def lookups (p : Program) (st : σ) : List Address :=
  ((p.evaluate src.noting).run.run ([], st)).2.1

/-- What an evaluation looks up and how it ends is what the course of the program says. -/
theorem evaluate_course (p : Program) (st : σ) :
    p.lookups src st = p.course.reads ∧
      ∀ f, ((p.evaluate src).run.run st).1 = .error f ↔ p.course.fault = some f := by
  obtain ⟨r, st', hrun, hfault⟩ := (p.follows src).exists_run [] st
  obtain ⟨noted', hnotes⟩ := p.evaluate_noting src [] st
  have hr : ((p.evaluate src).run.run st).1 = r := by
    rw [hnotes] at hrun
    exact congrArg Prod.fst hrun
  refine ⟨?_, fun f => ?_⟩
  · rw [lookups, hrun, List.nil_append]
  · rw [hr, hfault]

/-- **Neither success, nor the error, nor what is looked up depends on what the cells hold.** Two
evaluations of a program look up the same cells in the same order, and if one of them ends with an
error, so does the other, with the same one. A program succeeds exactly if no instruction of it is a
failure and, from left to right, every instruction finds its operands, every call a function that
takes as many, and in the end one value is left. -/
theorem evaluate_blind {τ : Type} (p : Program) (src' : Source (StateM τ)) (st : σ) (st' : τ) :
    (∀ f, ((p.evaluate src).run.run st).1 = .error f ↔
      ((p.evaluate src').run.run st').1 = .error f) ∧
    p.lookups src st = p.lookups src' st' ∧
    ((∃ v, ((p.evaluate src).run.run st).1 = .ok v) ↔
      (∀ marker, .failure marker ∉ p) ∧ p.Balanced 0) := by
  obtain ⟨hreads, hfault⟩ := p.evaluate_course src st
  obtain ⟨hreads', hfault'⟩ := p.evaluate_course src' st'
  refine ⟨fun f => ?_, ?_, ?_⟩
  · rw [hfault, hfault']
  · rw [hreads, hreads']
  · rw [← fault_course_eq_none]
    cases hr : ((p.evaluate src).run.run st).1 with
    | ok v =>
      have hnone : p.course.fault = none := by
        rw [Option.eq_none_iff_forall_ne_some]
        intro f hf
        rw [← hfault, hr] at hf
        cases hf
      simp [hnone]
    | error f =>
      have hsome : p.course.fault = some f := (hfault f).mp hr
      simp [hsome]

end Program

end

end Spreadsheet
