import Mathlib
import Spreadsheet.Value

/-! # How doubles compare

Two doubles compare as less, equal or greater, and no number compares with nothing: `order?`. The
tests on doubles ask for one or two of the three answers (`lt_iff`, `le_iff`, `beq_iff`). A change
of sides turns the answer around (`order?_swap`), and there is one unless one of the sides is no
number (`order?_eq_none`). -/

namespace Spreadsheet.Number

open Float.Model

/-- How two doubles compare; no number compares with nothing. -/
def order? (x y : Float) : Option Ordering := x.toModel.unpack.compare y.toModel.unpack

variable {x y : Float}

theorem lt_iff : x < y ↔ order? x y = some .lt := by
  show decide (x.toModel < y.toModel) = true ↔ _
  rw [decide_eq_true_iff]
  exact beq_iff_eq

theorem le_iff : x ≤ y ↔ order? x y = some .lt ∨ order? x y = some .eq := by
  show decide (x.toModel ≤ y.toModel) = true ↔ _
  rw [decide_eq_true_iff]
  show (order? x y).any Ordering.isLE = true ↔ _
  match order? x y with
  | none => simp
  | some .lt => simp
  | some .eq => simp
  | some .gt => simp

theorem beq_iff : (x == y) = true ↔ order? x y = some .eq := by
  show (order? x y == some .eq) = true ↔ _
  exact beq_iff_eq

/-- **A change of sides turns the comparison around.** -/
theorem order?_swap (x y : Float) : order? y x = (order? x y).map Ordering.swap := by
  have hfinite : ∀ (m n : Nat) (d e : Int),
      (compare e d).then (compare n m) = ((compare d e).then (compare m n)).swap := by
    intro m n d e
    rw [Ordering.swap_then, ← Std.OrientedCmp.eq_swap, ← Std.OrientedCmp.eq_swap]
  unfold order?
  generalize x.toModel.unpack = a
  generalize y.toModel.unpack = b
  cases a with
  | notANumber => cases b <;> rfl
  | infinity s =>
    cases b with
    | infinity t => cases s <;> cases t <;> rfl
    | finite t n d hn => cases s <;> cases t <;> rfl
    | _ => cases s <;> rfl
  | zero s =>
    cases b with
    | infinity t => cases t <;> rfl
    | finite t n d hn => cases t <;> rfl
    | _ => rfl
  | finite s m e hm =>
    cases b with
    | notANumber => cases s <;> rfl
    | infinity t => cases s <;> cases t <;> rfl
    | zero t => cases s <;> rfl
    | finite t n d hn =>
      cases s <;> cases t
      · exact congrArg some (congrArg Ordering.swap (hfinite m n e d))
      · rfl
      · rfl
      · exact congrArg some (hfinite m n e d)

/-- Only no number fails to compare. -/
theorem order?_eq_none : order? x y = none ↔ x.isNaN = true ∨ y.isNaN = true := by
  show _ ↔ x.toModel.unpack.isNaN = true ∨ y.toModel.unpack.isNaN = true
  unfold order?
  generalize x.toModel.unpack = a
  generalize y.toModel.unpack = b
  cases a with
  | notANumber => simp [UnpackedFloat.compare, UnpackedFloat.isNaN]
  | infinity s => cases s <;> cases b <;> simp [UnpackedFloat.compare, UnpackedFloat.isNaN]
  | zero s =>
    cases b with
    | infinity t => cases t <;> simp [UnpackedFloat.compare, UnpackedFloat.isNaN]
    | finite t n d hn => cases t <;> simp [UnpackedFloat.compare, UnpackedFloat.isNaN]
    | _ => simp [UnpackedFloat.compare, UnpackedFloat.isNaN]
  | finite s m e hm =>
    cases b with
    | infinity t => cases s <;> cases t <;> simp [UnpackedFloat.compare, UnpackedFloat.isNaN]
    | finite t n d hn => cases s <;> cases t <;> simp [UnpackedFloat.compare, UnpackedFloat.isNaN]
    | _ => cases s <;> simp [UnpackedFloat.compare, UnpackedFloat.isNaN]

end Spreadsheet.Number
