import Spreadsheet.Compile

/-! # Open parentheses

The parentheses that are open while a formula is compiled depend on the items alone, not on the
operators that wait. An item that causes no failure opens or closes them as `Compilation.Nests` says
(`Compilation.Clean.step`), and if the finished program has no failure, none is open at its end
(`Compilation.clean_of_finish`). -/

namespace Spreadsheet

namespace Compilation

variable {c : Compilation} {i : Item} {is : List Item}

/-! ### Open parentheses -/

/-- The parentheses that are open, the innermost first. -/
def brackets (c : Compilation) : List Pending := c.pending.filter fun p => p.precedence?.isNone

/-- No instruction so far fails. -/
def Clean (c : Compilation) : Prop := ∀ m, .failure m ∉ c.program

/-- How an item that causes no failure changes the open parentheses. -/
inductive Nests : Item → List Pending → List Pending → Prop
  | operand (o : Operand) (ps : List Pending) : Nests (.operand o) ps ps
  | operator (o : Operator) (ps : List Pending) : Nests (.operator o) ps ps
  | leftParen (ps : List Pending) : Nests .leftParen ps (.paren :: ps)
  | call (name : String) (ps : List Pending) : Nests (.call name) ps (.call name 0 :: ps)
  | comma (name : String) (k : Nat) (ps : List Pending) :
    Nests .comma (.call name k :: ps) (.call name (k + 1) :: ps)
  | closeParen (ps : List Pending) : Nests .rightParen (.paren :: ps) ps
  | closeCall (name : String) (k : Nat) (ps : List Pending) :
    Nests .rightParen (.call name k :: ps) ps

theorem mem_settle {bound : Nat → Bool} {program : Array Instruction} {ps : List Pending}
    {i : Instruction} (hi : i ∈ program) : i ∈ (settle bound program ps).1 := by
  induction ps generalizing program with
  | nil => exact hi
  | cons p rest ih =>
    unfold settle
    split
    · exact ih (Array.mem_push_of_mem _ hi)
    · exact hi

theorem filter_settle (bound : Nat → Bool) (program : Array Instruction) (ps : List Pending) :
    (settle bound program ps).2.filter (fun p => p.precedence?.isNone) =
      ps.filter fun p => p.precedence?.isNone := by
  induction ps generalizing program with
  | nil => rfl
  | cons p rest ih =>
    unfold settle
    split
    · next hp =>
      have hsome : ¬ p.precedence?.isNone = true := by
        intro hnone
        rw [Option.isNone_iff_eq_none] at hnone
        simp [hnone] at hp
      rw [ih, List.filter_cons]
      exact (if_neg hsome).symm
    · rfl

theorem precedence?_settle (program : Array Instruction) (ps : List Pending) :
    ∀ p ∈ (settle (fun _ => true) program ps).2.head?, p.precedence? = none := by
  induction ps generalizing program with
  | nil => simp [settle]
  | cons p rest ih =>
    unfold settle
    split
    · exact ih _
    · next hp =>
      rintro q ⟨⟩
      simpa using hp

theorem brackets_release (c : Compilation) (bound : Nat → Bool) :
    (c.release bound).brackets = c.brackets := filter_settle bound c.program c.pending

theorem Clean.of_release (bound : Nat → Bool) (h : (c.release bound).Clean) : c.Clean :=
  fun m hm => h m (mem_settle hm)

theorem Clean.of_emit {i : Instruction} (h : (c.emit i).Clean) : c.Clean ∧ ∀ m, i ≠ .failure m := by
  constructor
  · exact fun m hm => h m (Array.mem_push_of_mem _ hm)
  · rintro m rfl
    exact h m Array.mem_push_self

/-- What waits after all operators have applied: nothing, or the innermost open parenthesis
first. -/
theorem releaseAll_cases (c : Compilation) :
    (c.releaseAll.pending = [] ∧ c.brackets = []) ∨
    (∃ rest, c.releaseAll.pending = .paren :: rest ∧
      c.brackets = .paren :: rest.filter fun p => p.precedence?.isNone) ∨
    ∃ name k rest, c.releaseAll.pending = .call name k :: rest ∧
      c.brackets = .call name k :: rest.filter fun p => p.precedence?.isNone := by
  have hbrackets : c.brackets = c.releaseAll.brackets := (brackets_release c _).symm
  have hhead : ∀ p ∈ c.releaseAll.pending.head?, p.precedence? = none :=
    precedence?_settle c.program c.pending
  unfold brackets at hbrackets ⊢
  rw [hbrackets]
  cases hp : c.releaseAll.pending with
  | nil => exact Or.inl ⟨rfl, rfl⟩
  | cons p rest =>
    rw [hp] at hhead
    cases p with
    | operator o => exact absurd (hhead _ rfl) (by simp [Pending.precedence?])
    | negate => exact absurd (hhead _ rfl) (by simp [Pending.precedence?])
    | paren => exact Or.inr (Or.inl ⟨rest, rfl, rfl⟩)
    | call name k => exact Or.inr (Or.inr ⟨name, k, rest, rfl, rfl⟩)

theorem Clean.separate (h : c.separate.Clean) :
    c.Clean ∧ Nests .comma c.brackets c.separate.brackets := by
  unfold Compilation.separate at h ⊢
  rcases releaseAll_cases c with ⟨hp, hb⟩ | ⟨rest, hp, hb⟩ | ⟨name, k, rest, hp, hb⟩
  · simp only [hp] at h
    exact absurd rfl ((Clean.of_emit (c := c.releaseAll) h).2 .error)
  · simp only [hp] at h
    exact absurd rfl ((Clean.of_emit (c := c.releaseAll) h).2 .error)
  · simp only [hp] at h ⊢
    refine ⟨Clean.of_release (fun _ => true) h, ?_⟩
    rw [hb]
    exact .comma name k _

theorem Clean.close {opened : Bool} (h : (c.close opened).Clean) :
    c.Clean ∧ Nests .rightParen c.brackets (c.close opened).brackets := by
  unfold Compilation.close at h ⊢
  rcases releaseAll_cases c with ⟨hp, hb⟩ | ⟨rest, hp, hb⟩ | ⟨name, k, rest, hp, hb⟩
  · simp only [hp] at h
    exact absurd rfl ((Clean.of_emit (c := c.releaseAll) h).2 .error)
  · simp only [hp] at h ⊢
    refine ⟨Clean.of_release (fun _ => true) h, ?_⟩
    rw [hb]
    exact .closeParen _
  · simp only [hp] at h ⊢
    refine ⟨Clean.of_release (fun _ => true) (Clean.of_emit h).1, ?_⟩
    rw [hb]
    exact .closeCall name k _

/-- An operator neither opens nor closes a parenthesis. -/
theorem brackets_step_operator (c : Compilation) (o : Operator) :
    (c.step (.operator o)).brackets = c.brackets := by
  unfold Compilation.step
  dsimp only
  split
  · rfl
  · split
    · rfl
    · exact brackets_release { c with opened := false } _

theorem Clean.of_step_operator {o : Operator} (h : (c.step (.operator o)).Clean) : c.Clean := by
  unfold Compilation.step at h
  dsimp only at h
  split at h
  · exact h
  · split at h
    · exact h
    · exact Clean.of_release (c := { c with opened := false }) _ h

/-- An item that causes no failure opens and closes parentheses in pairs. -/
theorem Clean.step (h : (c.step i).Clean) : c.Clean ∧ Nests i c.brackets (c.step i).brackets := by
  cases i with
  | operand o => exact ⟨(Clean.of_emit h).1, .operand o _⟩
  | failure m => exact absurd rfl ((Clean.of_emit h).2 m)
  | operator o =>
    rw [brackets_step_operator]
    exact ⟨Clean.of_step_operator h, .operator o _⟩
  | leftParen => exact ⟨h, .leftParen _⟩
  | rightParen => exact Clean.close (c := { c with opened := false }) h
  | comma => exact Clean.separate (c := { c with opened := false }) h
  | call name => exact ⟨h, .call name _⟩

theorem Clean.of_foldl (h : (is.foldl Compilation.step c).Clean) : c.Clean := by
  induction is generalizing c with
  | nil => exact h
  | cons i is ih =>
    rw [List.foldl_cons] at h
    exact (Clean.step (ih h)).1

theorem Clean.failure_notMem (h : (is.foldl Compilation.step c).Clean) : ∀ m, .failure m ∉ is := by
  induction is generalizing c with
  | nil => simp
  | cons i is ih =>
    rw [List.foldl_cons] at h
    intro m hm
    rcases List.mem_cons.mp hm with rfl | hm
    · have hnests := (Clean.step (Clean.of_foldl h)).2
      cases hnests
    · exact ih h m hm

/-- If no instruction of the finished program fails, no parenthesis is open at the end. -/
theorem clean_of_finish (h : c.finish.firstFailure? = none) : c.Clean ∧ c.brackets = [] := by
  have hno : ∀ i ∈ c.finish, ∀ m, i ≠ .failure m := by
    rintro i hi m rfl
    have := List.findSome?_eq_none_iff.mp h _ hi
    simp at this
  constructor
  · exact fun m hm => hno _ (List.mem_append_left _ (Array.mem_toList_iff.mpr hm)) m rfl
  · refine List.filter_eq_nil_iff.mpr fun p hp hnone => ?_
    have hmem : p.instruction ∈ c.finish := List.mem_append_right _ (List.mem_map_of_mem hp)
    cases p with
    | operator o => simp [Pending.precedence?] at hnone
    | negate => simp [Pending.precedence?] at hnone
    | paren => exact hno _ hmem .error rfl
    | call name k => exact hno _ hmem .error rfl

end Compilation

end Spreadsheet
