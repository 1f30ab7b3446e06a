import Spreadsheet.Proofs.Formula.Expression
import Spreadsheet.Proofs.Formula.Spelling

/-! # Infix writing

`Item.WellFormed` is the grammar of formulas: operands with signs in front of them and operators
between them, parentheses, and calls with commas between their arguments. All items of a well-formed
formula are in place: `Item.WellFormed.inPlace`.

`Expression.Infix` says which items write which expression: parentheses stand where the strength
of the operators demands them, and may stand around every part. -/

namespace Spreadsheet

namespace Item

/-! ### The grammar -/

/-- The items form an expression. -/
inductive WellFormed : List Item → Prop
  | operand (o : Operand) : WellFormed [.operand o]
  | sign {o : Operator} {is : List Item} (ho : o = .add ∨ o = .subtract) (h : WellFormed is) :
    WellFormed (.operator o :: is)
  | binary (o : Operator) {is js : List Item} (hl : WellFormed is) (hr : WellFormed js) :
    WellFormed (is ++ .operator o :: js)
  | paren {is : List Item} (h : WellFormed is) : WellFormed (.leftParen :: (is ++ [.rightParen]))
  | call (name : String) (args : List (List Item)) (h : ∀ is ∈ args, WellFormed is) :
    WellFormed (.call name :: (List.intercalate [.comma] args ++ [.rightParen]))

theorem inPlace_intercalate {args : List (List Item)} (hargs : args ≠ [])
    (h : ∀ is ∈ args, ∀ s rest, s ≠ .operator → inPlace s (is ++ rest) = inPlace .operator rest) :
    ∀ s rest, s ≠ .operator →
      inPlace s (List.intercalate [.comma] args ++ rest) = inPlace .operator rest := by
  induction args with
  | nil => exact absurd rfl hargs
  | cons is args ih =>
    intro s rest hs
    cases args with
    | nil =>
      rw [List.intercalate_singleton]
      exact h is List.mem_cons_self s rest hs
    | cons js args =>
      rw [List.intercalate_cons_cons, List.append_assoc, List.append_assoc,
        h is List.mem_cons_self s _ hs]
      rw [List.singleton_append, inPlace_cons]
      exact ih (by simp) (fun ks hks => h ks (List.mem_cons_of_mem is hks)) .operand rest (by simp)

/-- A well-formed expression leads from a place for an operand to the end of an operand. -/
theorem WellFormed.inPlace_append {is : List Item} (h : WellFormed is) :
    ∀ s rest, s ≠ .operator → inPlace s (is ++ rest) = inPlace .operator rest := by
  induction h with
  | operand o =>
    intro s rest hs
    simp [inPlace_cons, fits, behind, hs]
  | sign ho _ ih =>
    intro s rest hs
    rw [List.cons_append, inPlace_cons, show behind _ = .operand from rfl,
      ih .operand rest (by simp)]
    simp [fits, ho]
  | binary o _ _ ihl ihr =>
    intro s rest hs
    rw [List.append_assoc, ihl s _ hs, List.cons_append, inPlace_cons]
    exact ihr .operand rest (by simp)
  | paren _ ih =>
    intro s rest hs
    rw [List.cons_append, List.append_assoc, inPlace_cons, show behind _ = .operand from rfl,
      ih .operand _ (by simp)]
    simp [inPlace_cons, fits, behind, hs]
  | call name args _ ih =>
    intro s rest hs
    rw [List.cons_append, List.append_assoc, inPlace_cons, show behind _ = .arguments from rfl]
    by_cases hargs : args = []
    · simp [hargs, inPlace_cons, fits, behind, hs]
    · rw [inPlace_intercalate hargs ih .arguments _ (by simp)]
      simp [inPlace_cons, fits, behind, hs]

/-- **All items of a well-formed expression are in place.** -/
theorem WellFormed.inPlace {is : List Item} (h : WellFormed is) : inPlace .operand is = true := by
  have := h.inPlace_append .operand [] (by simp)
  rwa [List.append_nil] at this

end Item

namespace Operator

/-- How strongly an operator must at least bind to stand on the left of another one without
parentheses. -/
def left (o : Operator) : Nat := if o.groupsRight then o.precedence + 1 else o.precedence

/-- How strongly an operator must at least bind to stand on the right of another one without
parentheses. -/
def right (o : Operator) : Nat := if o.groupsRight then o.precedence else o.precedence + 1

end Operator

namespace Expression

/-- The items write the expression in a place where an operator needs parentheses unless it binds at
least as strongly as `n`. A sign binds tighter than any operator. -/
inductive Infix : Nat → Expression → List Item → Prop
  | operand (n : Nat) (o : Operand) : Infix n (.operand o) [.operand o]
  | negate {n : Nat} {e : Expression} {is : List Item} (hn : n ≤ Operator.negation)
    (h : Infix Operator.negation e is) : Infix n (.negate e) (.operator .subtract :: is)
  | plus {n : Nat} {e : Expression} {is : List Item} (hn : n ≤ Operator.negation)
    (h : Infix Operator.negation e is) : Infix n (.plus e) (.operator .add :: is)
  | binary {n : Nat} {o : Operator} {a b : Expression} {is js : List Item} (hn : n ≤ o.precedence)
    (ha : Infix o.left a is) (hb : Infix o.right b js) :
    Infix n (.binary o a b) (is ++ .operator o :: js)
  | paren {n : Nat} {e : Expression} {is : List Item} (h : Infix 0 e is) :
    Infix n e (.leftParen :: (is ++ [.rightParen]))
  | call {n : Nat} (name : String) (args : List (Expression × List Item))
    (h : ∀ arg ∈ args, Infix 0 arg.1 arg.2) :
    Infix n (.call name (args.map Prod.fst))
      (.call name :: (List.intercalate [.comma] (args.map Prod.snd) ++ [.rightParen]))

theorem Infix.wellFormed {n : Nat} {e : Expression} {is : List Item} (h : e.Infix n is) :
    Item.WellFormed is := by
  induction h with
  | operand n o => exact .operand o
  | negate _ _ ih => exact .sign (Or.inr rfl) ih
  | plus _ _ ih => exact .sign (Or.inl rfl) ih
  | binary _ _ _ iha ihb => exact .binary _ iha ihb
  | paren _ ih => exact .paren ih
  | call name args _ ih =>
    refine .call name _ fun is his => ?_
    obtain ⟨arg, harg, rfl⟩ := List.mem_map.mp his
    exact ih arg harg

end Expression

end Spreadsheet
