import Spreadsheet.Proofs.Program.Reading

/-! # The course of an evaluation

Neither the cells that an evaluation reads nor its error depend on what the cells hold: no value
makes a function fail. `Course` says which cells are read, in order, and which error ends the
evaluation, if one does, and `Follows x c` that the computation `x` takes the course `c` from every
state of the source. -/

namespace Spreadsheet

/-- What an evaluation does: it reads cells in order and may end with an error. -/
structure Course where
  reads : List Address := []
  fault : Option EvalError := none

/-- Does one thing and then another, unless the first one fails. -/
def Course.andThen (c d : Course) : Course :=
  match c.fault with
  | some _ => c
  | none => ⟨c.reads ++ d.reads, d.fault⟩

theorem Course.andThen_nil (c : Course) : c.andThen {} = c := by
  obtain ⟨reads, fault⟩ := c
  cases fault with
  | none => rw [andThen, List.append_nil]
  | some f => rfl

theorem Course.fault_andThen {c d : Course} {f : EvalError} (h : (c.andThen d).fault = some f) :
    c.fault = some f ∨ d.fault = some f := by
  unfold andThen at h
  split at h
  · exact Or.inl h
  · exact Or.inr h

theorem Course.fault_andThen_eq_none {c d : Course} :
    (c.andThen d).fault = none ↔ c.fault = none ∧ d.fault = none := by
  unfold andThen
  cases hc : c.fault with
  | none => simp
  | some f => simp [hc]

/-- Why a call with `given` arguments fails, if it does. A name that no function has is reported
before a number of arguments, and too few of them before too many. -/
def Function.fault? (name : String) (given : Nat) : Option EvalError :=
  match Function.named? name with
  | none => some (.unknownFunction name)
  | some f =>
    if given < f.arity.least then some (.tooFew f.name f.arity.least given)
    else (f.arity.most.filter (· < given)).map fun most => .tooMany f.name most given

theorem Function.resolve_eq (name : String) (given : Nat) :
    match fault? name given with
    | some f => resolve name given = .error f
    | none => ∃ f, resolve name given = .ok f := by
  unfold fault? resolve
  cases named? name with
  | none => rfl
  | some f =>
    by_cases hleast : given < f.arity.least
    · simp [hleast]
    · cases hmost : f.arity.most with
      | none => simp [hleast, hmost]
      | some most => by_cases h : most < given <;> simp [hleast, hmost, h, Option.filter]

/-- A call complains about its name or the number of its arguments only. -/
theorem Function.fault?_eq_some {name : String} {given : Nat} {f : EvalError}
    (h : fault? name given = some f) : f ≠ .missingOperand ∧ f ≠ .leftover := by
  unfold fault? at h
  split at h
  · cases h
    simp
  · split at h
    · cases h
      simp
    · obtain ⟨most, -, rfl⟩ := Option.map_eq_some_iff.mp h
      simp

variable {σ α β : Type}

/-- The same source, with a note of every cell that is read. -/
def Source.noting (src : Source (StateM σ)) : Source (StateM (List Address × σ)) where
  cell a := fun (noted, st) => ((src.cell a st).1, noted ++ [a], (src.cell a st).2)
  volatile v := fun (noted, st) => ((src.volatile v st).1, noted, (src.volatile v st).2)

/-- From every state the computation reads what the course says and fails as the course says; if it
does not fail, what it gives is `good`. -/
def Follows (x : ExceptT EvalError (StateM (List Address × σ)) α) (c : Course)
    (good : α → Prop) : Prop :=
  ∀ noted st, ∃ st',
    match c.fault with
    | some f => x.run.run (noted, st) = (.error f, noted ++ c.reads, st')
    | none => ∃ a, good a ∧ x.run.run (noted, st) = (.ok a, noted ++ c.reads, st')

namespace Follows

variable {x : ExceptT EvalError (StateM (List Address × σ)) α}
  {f : α → ExceptT EvalError (StateM (List Address × σ)) β} {c d : Course} {good : α → Prop}
  {fine : β → Prop}

theorem pure {a : α} (ha : good a) : Follows (σ := σ) (Pure.pure a) {} good :=
  fun noted st => ⟨st, a, ha, by rw [List.append_nil]; rfl⟩

theorem throw (e : EvalError) : Follows (σ := σ) (throw e) { fault := some e } good :=
  fun noted st => ⟨st, by rw [List.append_nil]; rfl⟩

theorem bind (hx : Follows x c good) (hf : ∀ a, good a → Follows (f a) d fine) :
    Follows (x >>= f) (c.andThen d) fine := by
  intro noted st
  obtain ⟨st', hst'⟩ := hx noted st
  cases hc : c.fault with
  | some e =>
    simp only [hc] at hst'
    refine ⟨st', ?_⟩
    simp only [Course.andThen, hc, ExceptT.run_bind, StateT.run_bind, hst']
    rfl
  | none =>
    simp only [hc] at hst'
    obtain ⟨a, ha, hrun⟩ := hst'
    obtain ⟨st'', hst''⟩ := hf a ha (noted ++ c.reads) st'
    have hbind : (x >>= f).run.run (noted, st) = (f a).run.run (noted ++ c.reads, st') := by
      rw [ExceptT.run_bind, StateT.run_bind, hrun]
      rfl
    refine ⟨st'', ?_⟩
    simp only [Course.andThen, hc, hbind, ← List.append_assoc]
    exact hst''

theorem lift {y : StateM (List Address × σ) α} {reads : List Address}
    (h : ∀ noted st, ∃ a st', good a ∧ y.run (noted, st) = (a, noted ++ reads, st')) :
    Follows (ExceptT.lift y) { reads } good := by
  intro noted st
  obtain ⟨a, st', ha, hrun⟩ := h noted st
  refine ⟨st', a, ha, ?_⟩
  rw [ExceptT.run_lift, StateT.run_map, hrun]
  rfl

/-- A computation that takes a course fails as the course says. -/
theorem exists_run (h : Follows x c good) (noted : List Address) (st : σ) :
    ∃ r st', x.run.run (noted, st) = (r, noted ++ c.reads, st') ∧
      ∀ f, r = .error f ↔ c.fault = some f := by
  obtain ⟨st', hst'⟩ := h noted st
  cases hc : c.fault with
  | some e =>
    simp only [hc] at hst'
    exact ⟨.error e, st', hst', by simp⟩
  | none =>
    simp only [hc] at hst'
    obtain ⟨a, -, hrun⟩ := hst'
    exact ⟨.ok a, st', hrun, by simp⟩

end Follows

variable (src : Source (StateM σ))

theorem run_mapM_noting (as noted : List Address) (st : σ) :
    ∃ vs st', (as.mapM src.noting.cell).run (noted, st) = (vs, noted ++ as, st') := by
  induction as generalizing noted st with
  | nil => exact ⟨[], st, by rw [List.append_nil]; rfl⟩
  | cons a as ih =>
    obtain ⟨vs, st', hrun⟩ := ih (noted ++ [a]) (src.cell a st).2
    refine ⟨(src.cell a st).1 :: vs, st', ?_⟩
    have hcons : ((a :: as).mapM src.noting.cell).run (noted, st) =
        (((src.cell a st).1 ::
            ((as.mapM src.noting.cell).run (noted ++ [a], (src.cell a st).2)).1),
          ((as.mapM src.noting.cell).run (noted ++ [a], (src.cell a st).2)).2) := by
      rw [List.mapM_cons]
      rfl
    rw [hcons, hrun, List.append_assoc, List.singleton_append]

/-- An operand reads its cells. -/
theorem Operand.follows (o : Operand) :
    Follows (ExceptT.lift (o.evaluate src.noting)) { reads := o.cells } fun _ => True := by
  refine Follows.lift fun noted st => ?_
  cases o with
  | number x => exact ⟨_, st, trivial, by simp only [cells, List.append_nil]; rfl⟩
  | text s => exact ⟨_, st, trivial, by simp only [cells, List.append_nil]; rfl⟩
  | ref a => exact ⟨_, _, trivial, rfl⟩
  | range r =>
    obtain ⟨vs, st', hrun⟩ := run_mapM_noting src r.cells noted st
    refine ⟨.array vs, st', trivial, ?_⟩
    rw [evaluate, StateT.run_bind, hrun]
    rfl

/-- A call reads nothing, and whether it fails depends on the number of its arguments only. -/
theorem Function.follows (name : String) (args : List Value) :
    Follows (Function.call src.noting name args) { fault := fault? name args.length }
      fun _ => True := by
  intro noted st
  have hresolve := resolve_eq name args.length
  simp only [List.append_nil]
  cases hf : fault? name args.length with
  | some f =>
    simp only [hf] at hresolve
    refine ⟨st, ?_⟩
    rw [call, hresolve]
    rfl
  | none =>
    simp only [hf] at hresolve
    obtain ⟨f, hresolve⟩ := hresolve
    rw [call, hresolve]
    cases f with
    | fixed g => exact ⟨st, _, trivial, rfl⟩
    | volatile v => exact ⟨_, _, trivial, rfl⟩

end Spreadsheet
