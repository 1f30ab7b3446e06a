import Spreadsheet.Proofs.Formula.Nesting
import Spreadsheet.Proofs.Formula.Parsing
import Spreadsheet.Proofs.Formula.Scanning

/-! # The order of a program

Compiling loses nothing, doubles nothing and moves nothing but operators, however malformed the
formula is: `Program.ofTokens_sequence`. Without its operators, the program of a formula is the
sequence of what the formula has at each place, from left to right, and a failure for each
parenthesis that is still open at the end (`Item.sequence`). The operators of the program are those
of the formula, in some order (`Item.operations`).

What an item adds depends on the open parentheses (`Item.nest`) and on the place behind the item
before it (`Item.behind`). -/

namespace Spreadsheet

/-- An operator or a negation. -/
def Instruction.isOperation : Instruction → Bool
  | operator _ | negate => true
  | push _ | call _ _ | failure _ => false

/-- A program without its operators. -/
def Program.withoutOperations (p : Program) : Program := p.filter fun i => !i.isOperation

/-- The operators of a program. -/
def Program.operations (p : Program) : Program := p.filter Instruction.isOperation

namespace Item

/-- The parentheses that are open behind an item, the innermost first, given those that are open in
front of it. A comma counts if the innermost one is that of a call. -/
def nest (ps : List Pending) : Item → List Pending
  | leftParen => .paren :: ps
  | call name => .call name 0 :: ps
  | comma =>
    match ps with
    | .call name commas :: rest => .call name (commas + 1) :: rest
    | _ => ps
  | rightParen => ps.tail
  | operand _ | failure _ | operator _ => ps

/-- What an item adds to the program where it stands: an operand and a place without sense add
themselves, a closing parenthesis the call that it closes. A comma outside a call and a closing
parenthesis that closes nothing are failures. -/
def places (s : Slot) (ps : List Pending) : Item → Program
  | operand o => [.push o]
  | failure m => [.failure m]
  | comma =>
    match ps with
    | .call _ _ :: _ => []
    | _ => [.failure .error]
  | rightParen =>
    match ps with
    | .paren :: _ => []
    | .call name commas :: _ => [.call name (if s = .arguments then 0 else commas + 1)]
    | _ => [.failure .error]
  | operator _ | leftParen | call _ => []

/-- The operator that an item adds to the program, somewhere behind. In front of an operand a minus
is a negation and a plus nothing. -/
def applies (s : Slot) : Item → Program
  | operator o =>
    if s = .operator then [.operator o]
    else if o = .add then []
    else if o = .subtract then [.negate]
    else [.operator o]
  | _ => []

/-- **What items add where they stand**, from left to right, and a failure for each parenthesis that
is left open. -/
def sequence : List Pending → Slot → List Item → Program
  | ps, _, [] => ps.map fun _ => .failure .error
  | ps, s, i :: is => i.places s ps ++ sequence (i.nest ps) i.behind is

/-- **The operators that items add**, from left to right. -/
def operations : Slot → List Item → Program
  | _, [] => []
  | s, i :: is => i.applies s ++ operations i.behind is

end Item

namespace Program

variable {p q : Program}

theorem withoutOperations_append :
    withoutOperations (p ++ q) = p.withoutOperations ++ q.withoutOperations :=
  List.filter_append p q

theorem operations_append : operations (p ++ q) = p.operations ++ q.operations :=
  List.filter_append p q

/-- Operators are no failures. -/
theorem firstFailure?_withoutOperations (p : Program) :
    p.withoutOperations.firstFailure? = p.firstFailure? := by
  induction p with
  | nil => rfl
  | cons i p ih => cases i <;> first | exact ih | rfl

end Program

namespace Compilation

variable {c : Compilation} {s : Slot} {i : Item} {is : List Item}

/-! ### What waits -/

theorem instruction_of_precedence? {p : Pending} (h : p.precedence?.isSome) :
    p.instruction.isOperation = true := by
  cases p <;> first | rfl | cases h

theorem withoutOperations_release (c : Compilation) (bound : Nat → Bool) :
    Program.withoutOperations (c.release bound).program.toList =
      Program.withoutOperations c.program.toList := by
  obtain ⟨program, ps, wanting, opened⟩ := c
  show Program.withoutOperations (settle bound program ps).1.toList = _
  induction ps generalizing program with
  | nil => rfl
  | cons p rest ih =>
    unfold settle
    split
    · next hp =>
      have hsome : p.precedence?.isSome := by
        cases hk : p.precedence? with
        | none => simp [hk] at hp
        | some k => rfl
      rw [ih, Array.toList_push, Program.withoutOperations_append]
      simp [Program.withoutOperations, instruction_of_precedence? hsome]
    · rfl

/-- At the end every open parenthesis is a failure. -/
theorem withoutOperations_pending (ps : List Pending) :
    Program.withoutOperations (ps.map Pending.instruction) =
      (ps.filter fun p => p.precedence?.isNone).map fun _ => .failure .error := by
  induction ps with
  | nil => rfl
  | cons p ps ih =>
    cases p with
    | operator o => exact ih
    | negate => exact ih
    | paren => exact congrArg (Instruction.failure .error :: ·) ih
    | call name commas => exact congrArg (Instruction.failure .error :: ·) ih

theorem withoutOperations_finish (c : Compilation) : c.finish.withoutOperations =
    Program.withoutOperations c.program.toList ++ c.brackets.map fun _ => .failure .error := by
  rw [finish, Program.withoutOperations_append, withoutOperations_pending, brackets]

/-! ### What is added -/

/-- `d` is `c` with some instructions added where the program ends so far, and with some operators
that are added there or wait. -/
structure Extends (c d : Compilation) (placed applied : Program) : Prop where
  placed : Program.withoutOperations d.program.toList =
    Program.withoutOperations c.program.toList ++ placed
  applied : d.finish.operations.Perm (c.finish.operations ++ applied)

namespace Extends

variable {d e : Compilation} {placed placed' applied applied' : Program}

theorem trans (h : c.Extends d placed applied) (h' : d.Extends e placed' applied') :
    c.Extends e (placed ++ placed') (applied ++ applied') where
  placed := by rw [h'.placed, h.placed, List.append_assoc]
  applied := by
    rw [← List.append_assoc]
    exact h'.applied.trans (h.applied.append_right _)

theorem release (c : Compilation) (bound : Nat → Bool) : c.Extends (c.release bound) [] [] where
  placed := by rw [withoutOperations_release, List.append_nil]
  applied := by rw [finish_release, List.append_nil]

theorem emit {i : Instruction} (hi : i.isOperation = false)
    (hprogram : d.program = c.program.push i) (hpending : d.pending = c.pending) :
    c.Extends d [i] [] where
  placed := by
    rw [hprogram, Array.toList_push, Program.withoutOperations_append]
    simp [Program.withoutOperations, hi]
  applied := by
    refine List.Perm.of_eq ?_
    simp [finish, hprogram, hpending, Program.operations, hi]

/-- What waits may change in parentheses. -/
theorem of_pending (hprogram : d.program = c.program)
    (hpending : Program.operations (d.pending.map Pending.instruction) =
      Program.operations (c.pending.map Pending.instruction)) : c.Extends d [] [] where
  placed := by rw [hprogram, List.append_nil]
  applied := by
    rw [finish, Program.operations_append, hprogram, hpending, ← Program.operations_append,
      List.append_nil, finish]

/-- One more operator may wait. -/
theorem push {p : Pending} (hprogram : d.program = c.program)
    (hpending : d.pending = p :: c.pending) :
    c.Extends d [] (Program.operations [p.instruction]) where
  placed := by rw [hprogram, List.append_nil]
  applied := by
    have hp : Program.operations (d.pending.map Pending.instruction) =
        Program.operations [p.instruction] ++
          Program.operations (c.pending.map Pending.instruction) := by
      rw [hpending, ← Program.operations_append]
      rfl
    rw [finish, finish, Program.operations_append, Program.operations_append, hprogram, hp,
      List.append_assoc]
    exact List.perm_append_comm.append_left _

end Extends

/-! ### One more item -/

/-- The compilation is at a place. -/
structure At (c : Compilation) (s : Slot) : Prop where
  wanting : c.wanting = decide (s ≠ .operator)
  opened : c.opened = decide (s = .arguments)

theorem at_step (c : Compilation) (i : Item) : (c.step i).At i.behind := by
  cases i with
  | operand o => exact ⟨rfl, rfl⟩
  | failure m => exact ⟨rfl, rfl⟩
  | leftParen => exact ⟨rfl, rfl⟩
  | call name => exact ⟨rfl, rfl⟩
  | operator o =>
    unfold step
    dsimp only
    split
    · next hw => exact ⟨hw.1, rfl⟩
    · split
      · next hw => exact ⟨hw.1, rfl⟩
      · exact ⟨rfl, rfl⟩
  | comma =>
    unfold step separate
    dsimp only
    split <;> exact ⟨rfl, rfl⟩
  | rightParen =>
    unfold step close
    dsimp only
    split <;> exact ⟨rfl, rfl⟩

theorem extends_between (c : Compilation) (o : Operator) :
    c.Extends (c.between o) [] [.operator o] :=
  (Extends.release c _).trans (Extends.push (p := .operator o) rfl rfl)

/-- Where an operand is to follow, a plus adds nothing and a minus a negation. -/
theorem extends_operator {o : Operator} (h : c.At s) :
    c.Extends (c.step (.operator o)) [] (Item.applies s (.operator o)) := by
  have hc : c.Extends { c with opened := false } [] [] := Extends.of_pending rfl rfl
  have hbetween : c.Extends (between { c with opened := false } o) [] [.operator o] :=
    hc.trans (extends_between _ o)
  unfold step Item.applies
  dsimp only
  by_cases hs : s = .operator
  · have hw : c.wanting = false := by simp [h.wanting, hs]
    simpa [hw, hs] using hbetween
  · have hw : c.wanting = true := by simp [h.wanting, hs]
    simp only [hw, hs, true_and, if_false]
    split
    · exact Extends.of_pending rfl rfl
    · split
      · exact Extends.push (p := .negate) rfl rfl
      · exact hbetween

theorem separate_spec (c : Compilation) : c.separate.brackets = Item.nest c.brackets .comma ∧
    c.Extends c.separate (Item.places s c.brackets .comma) [] := by
  have hrelease : c.Extends c.releaseAll [] [] := Extends.release c _
  have hbrackets : c.releaseAll.brackets = c.brackets := brackets_release c _
  have hfail : c.Extends { c.releaseAll.emit (.failure .error) with wanting := true }
      [.failure .error] [] := hrelease.trans (Extends.emit rfl rfl rfl)
  rcases releaseAll_cases c with ⟨hp, hb⟩ | ⟨rest, hp, hb⟩ | ⟨name, k, rest, hp, hb⟩
  · rw [hb] at hbrackets ⊢
    simp only [separate, hp]
    exact ⟨hbrackets, hfail⟩
  · rw [hb] at hbrackets ⊢
    simp only [separate, hp]
    exact ⟨hbrackets, hfail⟩
  · rw [hb]
    simp only [separate, hp]
    refine ⟨rfl, hrelease.trans (Extends.of_pending rfl ?_)⟩
    rw [hp]
    rfl

theorem close_spec (c : Compilation) :
    (c.close (decide (s = .arguments))).brackets = Item.nest c.brackets .rightParen ∧
    c.Extends (c.close (decide (s = .arguments))) (Item.places s c.brackets .rightParen) [] := by
  have hrelease : c.Extends c.releaseAll [] [] := Extends.release c _
  have hbrackets : c.releaseAll.brackets = c.brackets := brackets_release c _
  rcases releaseAll_cases c with ⟨hp, hb⟩ | ⟨rest, hp, hb⟩ | ⟨name, k, rest, hp, hb⟩
  · rw [hb] at hbrackets ⊢
    simp only [close, hp]
    exact ⟨hbrackets, hrelease.trans (Extends.emit rfl rfl rfl)⟩
  · rw [hb]
    simp only [close, hp]
    refine ⟨rfl, hrelease.trans (Extends.of_pending rfl ?_)⟩
    rw [hp]
    rfl
  · rw [hb]
    simp only [close, hp, Item.places, decide_eq_true_eq]
    have hpop : c.releaseAll.Extends { c.releaseAll with pending := rest } [] [] := by
      refine Extends.of_pending rfl ?_
      rw [hp]
      rfl
    exact ⟨rfl, (hrelease.trans hpop).trans (Extends.emit rfl rfl rfl)⟩

/-- **What an item adds.** It opens and closes parentheses as it would without operators; it adds
what it has at its place to the end of the program, and its operator somewhere. -/
theorem step_spec (h : c.At s) : (c.step i).brackets = i.nest c.brackets ∧
    c.Extends (c.step i) (i.places s c.brackets) (i.applies s) := by
  have hc : c.Extends { c with opened := false } [] [] := Extends.of_pending rfl rfl
  cases i with
  | operand o => exact ⟨rfl, Extends.emit rfl rfl rfl⟩
  | failure m => exact ⟨rfl, Extends.emit rfl rfl rfl⟩
  | operator o => exact ⟨brackets_step_operator c o, extends_operator h⟩
  | leftParen => exact ⟨rfl, Extends.push (p := .paren) rfl rfl⟩
  | call name => exact ⟨rfl, Extends.push (p := .call name 0) rfl rfl⟩
  | comma =>
    obtain ⟨hbrackets, hextends⟩ := separate_spec (s := s) { c with opened := false }
    exact ⟨hbrackets, hc.trans hextends⟩
  | rightParen =>
    obtain ⟨hbrackets, hextends⟩ := close_spec (s := s) { c with opened := false }
    rw [← h.opened] at hbrackets hextends
    exact ⟨hbrackets, hc.trans hextends⟩

/-! ### All items -/

theorem withoutOperations_foldl (h : c.At s) : (is.foldl step c).finish.withoutOperations =
    Program.withoutOperations c.program.toList ++ Item.sequence c.brackets s is := by
  induction is generalizing c s with
  | nil => exact withoutOperations_finish c
  | cons i is ih =>
    obtain ⟨hbrackets, hextends⟩ := step_spec (i := i) h
    rw [List.foldl_cons, ih (at_step c i), hextends.placed, hbrackets, List.append_assoc]
    rfl

theorem operations_foldl (h : c.At s) : (is.foldl step c).finish.operations.Perm
    (c.finish.operations ++ Item.operations s is) := by
  induction is generalizing c s with
  | nil => rw [Item.operations, List.append_nil]; rfl
  | cons i is ih =>
    rw [List.foldl_cons, Item.operations, ← List.append_assoc]
    exact (ih (at_step c i)).trans ((step_spec h).2.applied.append_right _)

end Compilation

/-- What is no operator stands in the sequence of the items. -/
theorem Program.mem_sequence {limits : Limits} {ts : List Token} {i : Instruction}
    (hi : i.isOperation = false) (h : i ∈ ofTokens limits ts) :
    i ∈ Item.sequence [] .operand (Item.ofTokens limits ts) := by
  have hplaced : (ofTokens limits ts).withoutOperations =
      Item.sequence [] .operand (Item.ofTokens limits ts) :=
    Compilation.withoutOperations_foldl ⟨rfl, rfl⟩
  rw [← hplaced]
  exact List.mem_filter.mpr ⟨h, by rw [hi]; rfl⟩

/-- **Compiling keeps the order of the formula**, whatever the tokens are. There is one way to read
the tokens. Without its operators the program is what the items that are read have at their places,
from left to right, and then a failure for each parenthesis that is left open; the operators of the
program are those of the items. So the failure that is reported is the one furthest to the left. -/
theorem Program.ofTokens_sequence (limits : Limits) (ts : List Token) :
    ∃ is, Item.Reads limits is ts ∧ (∀ js, Item.Reads limits js ts → js = is) ∧
      (Program.ofTokens limits ts).withoutOperations = Item.sequence [] .operand is ∧
      (Program.ofTokens limits ts).operations.Perm (Item.operations .operand is) ∧
      ∀ marker ∈ (Item.sequence [] .operand is).firstFailure?,
        ∀ {m : Type → Type} [Monad m] (src : Source m),
          (Program.ofTokens limits ts).evaluate src = throw (.marker marker) := by
  have hstart : Compilation.At {} .operand := ⟨rfl, rfl⟩
  have hsequence : (Program.ofTokens limits ts).withoutOperations =
      Item.sequence [] .operand (Item.ofTokens limits ts) :=
    Compilation.withoutOperations_foldl hstart
  refine ⟨Item.ofTokens limits ts, Item.reads_iff.mpr rfl, fun js hjs => hjs.ofTokens_eq.symm,
    hsequence, Compilation.operations_foldl hstart, fun marker hmarker m _ src => ?_⟩
  rw [← hsequence, firstFailure?_withoutOperations] at hmarker
  unfold evaluate
  rw [Option.mem_def.mp hmarker]

/-- The items of `SUM(2,)+(3*-`: the last parenthesis is not closed, and it is reported last. -/
example : Item.sequence [] .operand [.call "SUM", .operand (.number 2), .comma, .rightParen,
    .operator .add, .leftParen, .operand (.number 3), .operator (.arithmetic .multiply),
    .operator .subtract] =
      [.push (.number 2), .call "SUM" 2, .push (.number 3), .failure .error] := rfl

end Spreadsheet
