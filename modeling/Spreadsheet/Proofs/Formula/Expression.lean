import Spreadsheet.Proofs.Program.Course

/-! # Expressions

An expression is what a formula says, apart from how it is written: a tree of operands, signs,
operators and calls. `Expression.postorder` is its program, operands before their operators, and
`Expression.evaluate` computes its value by recursion over the tree, from left to right.

The program of an expression evaluates to the value of the expression, with the same effects in the
same order wherever it reads from, and it never lacks an operand or leaves one over:
`Expression.evaluate_postorder`. -/

namespace Spreadsheet

inductive Expression where
  | operand (o : Operand)
  | negate (e : Expression)
  /-- A plus sign in front of an expression, which changes nothing. -/
  | plus (e : Expression)
  | binary (o : Operator) (a b : Expression)
  | call (name : String) (args : List Expression)

namespace Program

theorem firstFailure?_append (p q : Program) :
    (p ++ q).firstFailure? = p.firstFailure?.or q.firstFailure? := List.findSome?_append

section

variable {m : Type → Type} [Monad m] [LawfulMonad m] {src : Source m}

theorem run_append (p q : Program) (stack : List Value) :
    (p ++ q).run src stack = p.run src stack >>= fun stack => q.run src stack := by
  induction p generalizing stack with
  | nil => rw [List.nil_append, run, pure_bind]
  | cons i p ih =>
    rw [List.cons_append, run, run, bind_assoc]
    exact bind_congr fun stack => ih stack

theorem run_singleton (i : Instruction) (stack : List Value) :
    Program.run src stack [i] = i.run src stack := by
  rw [run]
  exact bind_pure _

end

end Program

namespace Expression

mutual
/-- **The program of an expression**: operands come before the operator or the call that uses them.
-/
def postorder : Expression → Program
  | operand o => [.push o]
  | negate e => e.postorder ++ [.negate]
  | plus e => e.postorder
  | binary o a b => a.postorder ++ (b.postorder ++ [.operator o])
  | call name args => postorderAll args ++ [.call name args.length]
def postorderAll : List Expression → Program
  | [] => []
  | e :: es => e.postorder ++ postorderAll es
end

section

variable {m : Type → Type} [Monad m]

mutual
/-- **The value of an expression.** Operands and arguments are evaluated from left to right, and all
of them before the operator or the function that takes them. -/
def evaluate (src : Source m) : Expression → ExceptT EvalError m Value
  | operand o => ExceptT.lift (o.evaluate src)
  | negate e => return .number (-(← e.evaluate src).toNumber)
  | plus e => e.evaluate src
  | binary o a b => do
    let x ← a.evaluate src
    let y ← b.evaluate src
    return o.apply x y
  | call name args => do Function.call src name (← evaluateAll src args)
def evaluateAll (src : Source m) : List Expression → ExceptT EvalError m (List Value)
  | [] => return []
  | e :: es => do
    let v ← e.evaluate src
    let vs ← evaluateAll src es
    return v :: vs
end

end

mutual
/-- What the evaluation of an expression does: it reads the cells of the operands from left to right
and ends with the first call that fails. -/
def course : Expression → Course
  | operand o => { reads := o.cells }
  | negate e => e.course
  | plus e => e.course
  | binary _ a b => a.course.andThen b.course
  | call name args => (courseAll args).andThen { fault := Function.fault? name args.length }
def courseAll : List Expression → Course
  | [] => {}
  | e :: es => e.course.andThen (courseAll es)
end

/-! ### The shape of the program -/

mutual
theorem firstFailure?_postorder : ∀ e : Expression, e.postorder.firstFailure? = none
  | operand o => rfl
  | negate e => by
    rw [postorder, Program.firstFailure?_append, firstFailure?_postorder e]
    rfl
  | plus e => by rw [postorder, firstFailure?_postorder e]
  | binary o a b => by
    rw [postorder, Program.firstFailure?_append, Program.firstFailure?_append,
      firstFailure?_postorder a, firstFailure?_postorder b]
    rfl
  | call name args => by
    rw [postorder, Program.firstFailure?_append, firstFailure?_postorderAll args]
    rfl
theorem firstFailure?_postorderAll :
    ∀ es : List Expression, Program.firstFailure? (postorderAll es) = none
  | [] => rfl
  | e :: es => by
    rw [postorderAll, Program.firstFailure?_append, firstFailure?_postorder e,
      firstFailure?_postorderAll es]
    rfl
end

theorem postorder_ne_nil : ∀ e : Expression, e.postorder ≠ []
  | operand o => by simp [postorder]
  | negate e => by simp [postorder]
  | plus e => by rw [postorder]; exact postorder_ne_nil e
  | binary o a b => by simp [postorder]
  | call name args => by simp [postorder]

/-! ### The value of the program -/

section

variable {m : Type → Type} [Monad m] {src : Source m}

/-- A call takes the topmost values as its arguments, the deepest one first. -/
theorem run_call (name : String) (vs stack : List Value) :
    Instruction.run src (vs.reverse ++ stack) (.call name vs.length) =
      (do return (← Function.call src name vs) :: stack) := by
  have hlength : ¬ (vs.reverse ++ stack).length < vs.length := by simp
  have htake : (vs.reverse ++ stack).take vs.length = vs.reverse := by
    rw [← List.length_reverse, List.take_left]
  have hdrop : (vs.reverse ++ stack).drop vs.length = stack := by
    rw [← List.length_reverse, List.drop_left]
  rw [Instruction.run, if_neg hlength, htake, hdrop, List.reverse_reverse]

variable [LawfulMonad m]

/-- Evaluating arguments gives as many values. -/
theorem evaluateAll_bind_congr {β : Type} {f g : List Value → ExceptT EvalError m β} :
    ∀ (es : List Expression), (∀ vs, vs.length = es.length → f vs = g vs) →
      evaluateAll src es >>= f = evaluateAll src es >>= g
  | [], h => by
    rw [evaluateAll, pure_bind, pure_bind]
    exact h [] rfl
  | e :: es, h => by
    simp only [evaluateAll, bind_assoc, pure_bind]
    refine bind_congr fun v => evaluateAll_bind_congr es fun vs hvs => ?_
    exact h (v :: vs) (by rw [List.length_cons, List.length_cons, hvs])

mutual
/-- The program of an expression puts its value on the stack, whatever lies below. -/
theorem run_postorder : ∀ (e : Expression) (stack : List Value),
    e.postorder.run src stack = (do return (← e.evaluate src) :: stack)
  | operand o, stack => by rw [postorder, Program.run_singleton, evaluate, Instruction.run]
  | negate e, stack => by
    rw [postorder, Program.run_append, run_postorder e]
    simp only [Program.run_singleton, evaluate, bind_assoc, pure_bind, Instruction.run]
  | plus e, stack => by rw [postorder, evaluate, run_postorder e]
  | binary o a b, stack => by
    rw [postorder, Program.run_append, run_postorder a]
    simp only [Program.run_append, run_postorder b, Program.run_singleton, evaluate, bind_assoc,
      pure_bind, Instruction.run]
  | call name args, stack => by
    rw [postorder, Program.run_append, run_postorderAll args, evaluate]
    simp only [Program.run_singleton, bind_assoc, pure_bind]
    refine evaluateAll_bind_congr args fun vs hvs => ?_
    rw [← hvs, run_call]
theorem run_postorderAll : ∀ (es : List Expression) (stack : List Value),
    Program.run src stack (postorderAll es) =
      (do return (← evaluateAll src es).reverse ++ stack)
  | [], stack => by rw [postorderAll, Program.run, evaluateAll, pure_bind]; rfl
  | e :: es, stack => by
    rw [postorderAll, Program.run_append, run_postorder e]
    simp only [evaluateAll, run_postorderAll es, bind_assoc, pure_bind, List.reverse_cons,
      List.append_assoc, List.singleton_append]
end

theorem evaluate_postorder_eq (e : Expression) : e.postorder.evaluate src = e.evaluate src := by
  have hne : e.postorder.isEmpty = false := by
    simpa [List.isEmpty_eq_false_iff] using postorder_ne_nil e
  unfold Program.evaluate
  rw [firstFailure?_postorder]
  simp only [hne, Bool.false_eq_true, if_false, run_postorder, bind_assoc, pure_bind]
  exact bind_pure _

end

/-! ### The course of the evaluation -/

section

variable {σ : Type} (src : Source (StateM σ))

mutual
theorem follows : ∀ e : Expression, Follows (e.evaluate src.noting) e.course fun _ => True
  | operand o => by
    rw [evaluate, course]
    exact o.follows src
  | negate e => by
    rw [evaluate, course, ← e.course.andThen_nil]
    exact (follows e).bind fun v _ => Follows.pure trivial
  | plus e => by
    rw [evaluate, course]
    exact follows e
  | binary o a b => by
    rw [evaluate, course, ← b.course.andThen_nil]
    refine (follows a).bind fun x _ => (follows b).bind fun y _ => ?_
    exact Follows.pure trivial
  | call name args => by
    rw [evaluate, course]
    refine (followsAll args).bind fun vs hvs => ?_
    rw [← hvs]
    exact Function.follows src name vs
theorem followsAll : ∀ es : List Expression,
    Follows (evaluateAll src.noting es) (courseAll es) fun vs => vs.length = es.length
  | [] => Follows.pure rfl
  | e :: es => by
    rw [evaluateAll, courseAll, ← (courseAll es).andThen_nil]
    refine (follows e).bind fun v _ => (followsAll es).bind fun vs hvs => ?_
    exact Follows.pure (by rw [List.length_cons, List.length_cons, hvs])
end

end

mutual
/-- Only a call ends the evaluation of an expression. -/
theorem fault_course {f : EvalError} : ∀ e : Expression, e.course.fault = some f →
    ∃ name given, Function.fault? name given = some f
  | operand o, h => by simp [course] at h
  | negate e, h => fault_course e h
  | plus e, h => fault_course e h
  | binary o a b, h => (Course.fault_andThen h).elim (fault_course a) (fault_course b)
  | call name args, h =>
    (Course.fault_andThen h).elim (fault_courseAll args) fun h => ⟨name, args.length, h⟩
theorem fault_courseAll {f : EvalError} : ∀ es : List Expression,
    (courseAll es).fault = some f → ∃ name given, Function.fault? name given = some f
  | [], h => by simp [courseAll] at h
  | e :: es, h => (Course.fault_andThen h).elim (fault_course e) (fault_courseAll es)
end

/-- **The program of an expression computes its value**, with the same effects in the same order
wherever it reads from. From every state of a source it reads the cells that the course of the
expression lists, in order, and it fails exactly if a call does, with the error of the first such
call; it never lacks an operand or leaves one over. -/
theorem evaluate_postorder {m : Type → Type} [Monad m] [LawfulMonad m] {σ : Type} (e : Expression)
    (src : Source m) (source : Source (StateM σ)) (noted : List Address) (st : σ) :
    e.postorder.evaluate src = e.evaluate src ∧
    ∃ r st', (e.postorder.evaluate source.noting).run.run (noted, st) =
        (r, noted ++ e.course.reads, st') ∧
      (∀ f, r = .error f ↔ e.course.fault = some f) ∧
      r ≠ .error .missingOperand ∧ r ≠ .error .leftover := by
  obtain ⟨r, st', hrun, hfault⟩ := (e.follows source).exists_run noted st
  have hcall : ∀ f, r = .error f → f ≠ .missingOperand ∧ f ≠ .leftover := by
    intro f hf
    obtain ⟨name, given, h⟩ := fault_course e ((hfault f).mp hf)
    exact Function.fault?_eq_some h
  refine ⟨evaluate_postorder_eq e, r, st', ?_, hfault, ?_, ?_⟩
  · rw [evaluate_postorder_eq, hrun]
  · exact fun h => (hcall _ h).1 rfl
  · exact fun h => (hcall _ h).2 rfl

/-- `IF(A1>2, SUM(A1:B2, -3), NOPE(C1), D1)`: the call in the middle names no function. -/
def branches : Expression :=
  .call "IF" [.binary (.comparison .greater) (.operand (.ref ⟨0, 0⟩)) (.operand (.number 2)),
    .call "SUM" [.operand (.range (.spanning ⟨0, 0⟩ ⟨1, 1⟩)), .negate (.operand (.number 3))],
    .call "NOPE" [.operand (.ref ⟨0, 2⟩)], .operand (.ref ⟨0, 3⟩)]

/-- Both branches are evaluated before the condition is looked at, and nothing behind the call that
fails is read. The source gives every cell the number of reads before. -/
theorem branches_evaluate : LawfulMonad Id ∧
    branches.postorder.evaluate (Source.ofView fun _ => .empty) =
      branches.evaluate (Source.ofView fun _ => .empty) ∧
    ∃ st, (branches.postorder.evaluate
        (Source.noting ⟨fun _ n => (.number n, n + 1), fun _ => pure .empty⟩)).run.run ([], 0) =
      (.error (.unknownFunction "NOPE"),
        [⟨0, 0⟩, ⟨0, 0⟩, ⟨0, 1⟩, ⟨1, 0⟩, ⟨1, 1⟩, ⟨0, 2⟩], (st : Float)) := by
  obtain ⟨heq, r, st, hrun, hfault, -⟩ := evaluate_postorder branches
    (Source.ofView fun _ => .empty) ⟨fun _ n => (.number n, n + 1), fun _ => pure .empty⟩ [] 0
  have hreads : branches.course.reads =
      [⟨0, 0⟩, ⟨0, 0⟩, ⟨0, 1⟩, ⟨1, 0⟩, ⟨1, 1⟩, ⟨0, 2⟩] := by decide +kernel
  have hend : branches.course.fault = some (.unknownFunction "NOPE") := by decide +kernel
  refine ⟨inferInstance, heq, st, ?_⟩
  rw [hrun, hreads, (hfault _).mpr hend, List.nil_append]

end Expression

end Spreadsheet
