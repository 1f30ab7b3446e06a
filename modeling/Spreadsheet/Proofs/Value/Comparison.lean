import Mathlib
import Spreadsheet.Operator
import Spreadsheet.Proofs.Number.Order

/-! # Comparisons of values

Two scalars compare by their numbers if both have one and by their texts otherwise. Either way
exactly one of less, equal and greater holds, and a change of sides exchanges less and greater.

* `Scalar.order_swap`: the order of two scalars turns around with them. Numbers that do not compare
  count as equal from both sides, and texts are ordered by their characters.
* `Comparison.holds_negation`, `Comparison.holds_converse`: a comparison and the one that asks the
  opposite, or the same from the other side.
* `Operator.comparison_consistent`: what this says of the six operators on any two values. -/

namespace Spreadsheet

namespace Comparison

/-- The comparison that holds whenever this one does not. -/
def negation : Comparison → Comparison
  | equal => notEqual
  | notEqual => equal
  | less => greaterEqual
  | lessEqual => greater
  | greater => lessEqual
  | greaterEqual => less

/-- The comparison that asks the same with the sides changed. -/
def converse : Comparison → Comparison
  | equal => equal
  | notEqual => notEqual
  | less => greater
  | lessEqual => greaterEqual
  | greater => less
  | greaterEqual => lessEqual

theorem holds_negation (c : Comparison) (o : Ordering) : c.negation.holds o = !c.holds o := by
  cases c <;> cases o <;> rfl

theorem holds_converse (c : Comparison) (o : Ordering) : c.converse.holds o.swap = c.holds o := by
  cases c <;> cases o <;> rfl

/-- One of less, equal and greater holds, and no other. -/
theorem existsUnique_holds (o : Ordering) :
    ∃! c, c ∈ [less, equal, greater] ∧ c.holds o = true := by
  match o with
  | .lt => exact ⟨less, by decide, by rintro (_ | _ | _ | _ | _ | _) <;> decide⟩
  | .eq => exact ⟨equal, by decide, by rintro (_ | _ | _ | _ | _ | _) <;> decide⟩
  | .gt => exact ⟨greater, by decide, by rintro (_ | _ | _ | _ | _ | _) <;> decide⟩

end Comparison

namespace Scalar

/-- Numbers compare as doubles do, and equal if these do not compare. -/
theorem order_of_comparable {a b : Scalar} {x y : Float} (ha : a.comparable? = some x)
    (hb : b.comparable? = some y) : a.order b = (Number.order? x y).getD .eq := by
  have horder : a.order b = if x < y then .lt else if y < x then .gt else .eq := by
    rw [order, ha, hb]
  rw [horder]
  simp only [Number.lt_iff, Number.order?_swap x y]
  match Number.order? x y with
  | none => rfl
  | some .lt => rfl
  | some .eq => rfl
  | some .gt => rfl

/-- Without two numbers the texts compare, by their characters and without regard to case. -/
theorem order_of_not_comparable {a b : Scalar} (h : a.comparable? = none ∨ b.comparable? = none) :
    a.order b =
      compareOfLessAndEq (Text.lower a.shown.toList) (Text.lower b.shown.toList) := by
  unfold order
  split
  · next x y ha hb => simp [ha, hb] at h
  · rfl

/-- **The order of two scalars turns around with them.** -/
theorem order_swap (a b : Scalar) : b.order a = (a.order b).swap := by
  have htexts : a.comparable? = none ∨ b.comparable? = none → b.order a = (a.order b).swap := by
    intro h
    rw [order_of_not_comparable h, order_of_not_comparable h.symm]
    exact compareOfLessAndEq_eq_swap le_antisymm le_total not_le
  cases ha : a.comparable? with
  | none => exact htexts (Or.inl ha)
  | some x =>
    cases hb : b.comparable? with
    | none => exact htexts (Or.inr hb)
    | some y =>
      rw [order_of_comparable ha hb, order_of_comparable hb ha, Number.order?_swap x y]
      match Number.order? x y with
      | none => rfl
      | some o => rfl

end Scalar

namespace Operator

/-- **The comparison operators agree with one another**: on any two values exactly one of less,
equal and greater is true; a comparison and its negation have opposite truth values; and a
comparison gives the same as its converse with the sides changed. -/
theorem comparison_consistent (l r : Value) :
    (∃! c, c ∈ [Comparison.less, .equal, .greater] ∧
      (comparison c).apply l r = .boolean true) ∧
    (∀ c : Comparison, ∃ b, (comparison c).apply l r = .boolean b ∧
      (comparison c.negation).apply l r = .boolean !b) ∧
    ∀ c : Comparison, (comparison c).apply l r = (comparison c.converse).apply r l := by
  have happly : ∀ c, (comparison c).apply l r = .boolean (c.holds (l.first.order r.first)) :=
    fun c => rfl
  refine ⟨?_, fun c => ⟨_, happly c, ?_⟩, fun c => ?_⟩
  · simpa [happly] using Comparison.existsUnique_holds (l.first.order r.first)
  · rw [happly, Comparison.holds_negation]
  · show _ = Value.boolean (c.converse.holds (r.first.order l.first))
    rw [happly, Scalar.order_swap l.first r.first, Comparison.holds_converse]

end Operator

end Spreadsheet
