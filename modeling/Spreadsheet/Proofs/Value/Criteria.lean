import Mathlib
import Spreadsheet.Builtin
import Spreadsheet.Proofs.Number.ReadBack
import Spreadsheet.Proofs.Number.Whole
import Spreadsheet.Proofs.Value.Comparison

/-! # Counting by criteria

A criterion that asks for a number splits the numbers of a range in two: those that meet it and
those that meet its negation.

* `Comparison.test_negation`: of two doubles that are numbers, a comparison holds or its negation.
* `Criterion.ofText_sign`: a comparison sign in front of a text that is read as a number is the sign
  that is found, although some signs begin with others: no number begins with one.
* `Criterion.filterMap_filter`: the cells that meet a criterion, as numbers.
* `countIf_partitions`: the counts for a criterion and for its negation add up to the number of
  numbers, and the sum of ones beside the cells is the count. -/

namespace Spreadsheet

/-! ### Comparisons of numbers -/

namespace Comparison

/-- Doubles that compare satisfy what their order satisfies. -/
theorem test_eq {x y : Float} {o : Ordering} (h : Number.order? x y = some o) (c : Comparison) :
    c.test x y = c.holds o := by
  have hswap : Number.order? y x = some o.swap := by rw [Number.order?_swap x y, h, Option.map_some]
  have hbeq : (x == y) = (o == .eq) := by
    rw [Bool.eq_iff_iff, Number.beq_iff, h, Option.some_inj, beq_iff_eq]
  cases c with
  | equal => exact hbeq
  | notEqual => exact congrArg not hbeq
  | less =>
    simp only [test, Number.lt_iff, h]
    cases o <;> rfl
  | lessEqual =>
    simp only [test, Number.le_iff, h]
    cases o <;> rfl
  | greater =>
    simp only [test, Number.lt_iff, hswap]
    cases o <;> rfl
  | greaterEqual =>
    simp only [test, Number.le_iff, hswap]
    cases o <;> rfl

/-- **Of two numbers a comparison holds or its negation does.** -/
theorem test_negation {x y : Float} (hx : x.isNaN = false) (hy : y.isNaN = false)
    (c : Comparison) : c.negation.test x y = !c.test x y := by
  cases h : Number.order? x y with
  | none =>
    rcases Number.order?_eq_none.mp h with h | h
    · rw [hx] at h
      cases h
    · rw [hy] at h
      cases h
  | some o => rw [test_eq h, test_eq h, holds_negation]

end Comparison

/-! ### The criterion of a text -/

namespace Criterion

/-- A text that is read as a number does not begin like a comparison sign. -/
theorem head_ne_of_read? {t : String} {x : Float} (h : Number.read? t = some x) :
    ∀ c ∈ t.toList.head?, c ∉ ['=', '<', '>'] := by
  intro c hc hmem
  cases hcs : t.toList with
  | nil =>
    rw [hcs] at hc
    cases hc
  | cons d cs =>
    rw [hcs] at hc
    cases hc
    have hkind : Text.isBlank c = false ∧ Numeral.isDigit c = false ∧ c ∉ ['-', '+', '.'] := by
      simp only [List.mem_cons, List.not_mem_nil, or_false] at hmem
      rcases hmem with rfl | rfl | rfl <;> exact ⟨rfl, rfl, by decide⟩
    obtain ⟨hblank, hdigit, hsign⟩ := hkind
    rw [Number.read?_eq_none hcs hblank hdigit hsign] at h
    cases h

/-- The sign in front of a text that begins with none is found. -/
theorem splitSign?_sign (c : Comparison) {cs : List Char}
    (h : ∀ d ∈ cs.head?, d ∉ ['=', '<', '>']) :
    splitSign? (c.symbol.toList ++ cs) = some (c, cs) := by
  cases cs with
  | nil => cases c <;> decide
  | cons d ds =>
    have hd := h d rfl
    simp only [List.mem_cons, List.not_mem_nil, or_false, not_or] at hd
    have hequal : '=' ≠ d := Ne.symm hd.1
    have hgreater : '>' ≠ d := Ne.symm hd.2.2
    simp only [splitSign?, signs, List.findSome?_cons]
    cases c <;> simp [Comparison.symbol, hequal, hgreater]

/-- **A sign and a number ask how numbers compare.** -/
theorem ofText_sign (c : Comparison) {t : String} {x : Float} (h : Number.read? t = some x) :
    ofText (c.symbol ++ t) = number c x := by
  rw [ofText, String.toList_append, splitSign?_sign c (head_ne_of_read? h)]
  simp only [String.ofList_toList, h]

/-! ### Cells that meet a criterion -/

/-- The cells that meet a criterion on numbers hold the numbers that meet it. -/
theorem filterMap_filter (c : Comparison) (x : Float) (cells : List Scalar) :
    (cells.filter (number c x).holds).filterMap Scalar.number? =
      (cells.filterMap Scalar.number?).filter (c.test · x) := by
  have hcell : ∀ s, (if (number c x).holds s = true then s.number? else none) =
      s.number?.filter (c.test · x) := by
    intro s
    unfold holds
    cases s.number? with
    | none => simp
    | some y => rfl
  rw [List.filterMap_filter, List.filter_filterMap]
  exact congrArg (List.filterMap · cells) (funext hcell)

/-- There are as many as there are such numbers. -/
theorem length_filter (c : Comparison) (x : Float) (cells : List Scalar) :
    (cells.filter (number c x).holds).length =
      (cells.filterMap Scalar.number?).countP (c.test · x) := by
  have hsome : ∀ s ∈ cells.filter (number c x).holds, s.number?.isSome = true := by
    intro s hs
    have hholds := (List.mem_filter.mp hs).2
    unfold holds at hholds
    cases hn : s.number? with
    | none => simp [hn] at hholds
    | some y => rfl
  rw [List.countP_eq_length_filter, ← filterMap_filter, List.length_filterMap_eq_countP,
    List.countP_eq_length.mpr hsome]

/-- The numbers beside the cells that meet a criterion, if the same number stands beside all. -/
theorem filterMap_beside (p : Scalar → Bool) (y : Float) (cells : List Scalar) :
    (((cells.zip (List.replicate cells.length (Scalar.number y))).filter fun q => p q.1).filterMap
      fun q => q.2.number?) = List.replicate (cells.filter p).length y := by
  have hzip : cells.zip (List.replicate cells.length (.number y)) =
      cells.map fun s => (s, Scalar.number y) := by
    rw [← List.map_const', List.zip_map_right, List.zip_eq_zipWith, List.zipWith_self, List.map_map]
    rfl
  have hsome : ∀ cells : List Scalar, cells.filterMap (fun _ => some y) =
      List.replicate cells.length y := by
    intro cells
    rw [List.filterMap_eq_map', List.map_const']
  rw [hzip, List.filter_map, List.filterMap_map]
  exact hsome (cells.filter p)

end Criterion

/-! ### Counts and sums -/

/-- The result of `COUNTIF` for a criterion given as text. -/
def countIf (cells : List Scalar) (criterion : String) : Value :=
  Builtin.countif.apply [.array cells, .text criterion]

/-- The result of `SUMIF` for a criterion given as text and the cells beside. -/
def sumIf (cells : List Scalar) (criterion : String) (beside : List Scalar) : Value :=
  Builtin.sumif.apply [.array cells, .text criterion, .array beside]

section

variable {cells : List Scalar} {t : String} {x : Float}

theorem countIf_eq (ht : Number.read? t = some x) (c : Comparison) :
    countIf cells (c.symbol ++ t) =
      .number (Float.ofNat ((cells.filterMap Scalar.number?).countP (c.test · x))) := by
  show Value.number (Float.ofNat
    (cells.filter (Criterion.ofText (c.symbol ++ t)).holds).length) = _
  rw [Criterion.ofText_sign c ht, Criterion.length_filter]

theorem sumIf_ones (ht : Number.read? t = some x) (c : Comparison) :
    sumIf cells (c.symbol ++ t) (List.replicate cells.length (.number 1)) =
      .number (Number.sum (List.replicate
        ((cells.filterMap Scalar.number?).countP (c.test · x)) 1)) := by
  show Value.number (Number.sum (((cells.zip (List.replicate cells.length (Scalar.number 1))).filter
    fun q => (Criterion.ofText (c.symbol ++ t)).holds q.1).filterMap fun q => q.2.number?)) = _
  rw [Criterion.filterMap_beside, Criterion.ofText_sign c ht, Criterion.length_filter]

/-- `COUNT` counts the numbers. -/
theorem count_eq : Builtin.count.apply [.array cells] =
    .number (Float.ofNat (cells.filterMap Scalar.number?).length) := by
  show Value.number (Float.ofNat (([Value.array cells].flatMap Value.scalars).filterMap
    Scalar.number?).length) = _
  rw [List.flatMap_singleton]
  rfl

/-- Every number of a list meets a comparison or its negation. -/
theorem length_eq_countP_add_negation {ys : List Float} (hys : ∀ y ∈ ys, y.isNaN = false)
    (hx : x.isNaN = false) (c : Comparison) :
    ys.length = ys.countP (c.test · x) + ys.countP (c.negation.test · x) := by
  have hnegation : ys.countP (c.negation.test · x) = ys.countP fun y => ¬c.test y x = true :=
    List.countP_congr fun y hy => by simp [Comparison.test_negation (hys y hy) hx c]
  rw [hnegation]
  exact List.length_eq_countP_add_countP _

theorem add_apply {a b : Float} (ha : a.isNaN = false) (hb : b.isNaN = false) :
    Operator.add.apply (.number a) (.number b) = .number (a + b) := by
  have hnumber : ∀ x : Float, x.isNaN = false → (Value.number x).toNumber = x := by
    intro x hx
    show (if x.isNaN = true then 0 else x) = x
    rw [hx, if_neg Bool.false_ne_true]
  show Value.number ((Value.number a).toNumber + (Value.number b).toNumber) = _
  rw [hnumber a ha, hnumber b hb]

theorem isNaN_of_number? (hcells : ∀ y, Scalar.number y ∈ cells → y.isNaN = false) :
    ∀ y ∈ cells.filterMap Scalar.number?, y.isNaN = false := by
  intro y hy
  obtain ⟨s, hs, hsy⟩ := List.mem_filterMap.mp hy
  cases s with
  | number z =>
    cases hsy
    exact hcells _ hs
  | boolean b =>
    cases hsy
    cases b <;> decide
  | empty => cases hsy
  | text s => cases hsy

/-- **The counts for a criterion and for its negation partition the numbers.** There are `n` cells
for the criterion and `m` for its negation, and `COUNT` gives `n + m`; the sum of ones beside the
cells is that of `n` ones. As long as whole numbers are exact, the counts add up as doubles and
the sum of the ones is the count. -/
theorem countIf_partitions (hcells : ∀ y, Scalar.number y ∈ cells → y.isNaN = false)
    (ht : Number.read? t = some x) (c : Comparison) :
    ∃ n m, n + m ≤ cells.length ∧
      countIf cells (c.symbol ++ t) = .number (Float.ofNat n) ∧
      countIf cells (c.negation.symbol ++ t) = .number (Float.ofNat m) ∧
      Builtin.count.apply [.array cells] = .number (Float.ofNat (n + m)) ∧
      sumIf cells (c.symbol ++ t) (List.replicate cells.length (.number 1)) =
        .number (Number.sum (List.replicate n 1)) ∧
      (n + m < 2 ^ 53 →
        Operator.add.apply (countIf cells (c.symbol ++ t))
          (countIf cells (c.negation.symbol ++ t)) = Builtin.count.apply [.array cells] ∧
        (Number.sum (List.replicate n 1) == Float.ofNat n) = true) := by
  have hsplit := length_eq_countP_add_negation (isNaN_of_number? hcells)
    (Number.isNaN_of_read? ht) c
  refine ⟨_, _, ?_, countIf_eq ht c, countIf_eq ht c.negation, ?_, sumIf_ones ht c,
    fun hlt => ?_⟩
  · rw [← hsplit]
    exact List.length_filterMap_le _ _
  · rw [count_eq, ← hsplit]
  · rw [countIf_eq ht c, countIf_eq ht c.negation, count_eq, hsplit]
    have hadd := add_apply (Number.isNaN_ofNat (Nat.lt_of_le_of_lt (Nat.le_add_right _ _) hlt))
      (Number.isNaN_ofNat (Nat.lt_of_le_of_lt (Nat.le_add_left _ _) hlt))
    rw [hadd, Number.ofNat_add_ofNat hlt]
    exact ⟨rfl, Number.sum_ones (Nat.lt_of_le_of_lt (Nat.le_add_right _ _) hlt)⟩

end

/-- Cells of all kinds. -/
def mixedCells : List Scalar := [.number 2.5, .text "7", .boolean true, .empty, .number 40]

theorem countIf_partitions_mixed :
    (∀ y, Scalar.number y ∈ mixedCells → y.isNaN = false) ∧
    Number.read? " +25e-1 " = some 2.5 ∧
    Operator.add.apply (countIf mixedCells ">= +25e-1 ") (countIf mixedCells "< +25e-1 ") =
      Builtin.count.apply [.array mixedCells] := by
  have hcells : ∀ y, Scalar.number y ∈ mixedCells → y.isNaN = false := by
    intro y hy
    simp only [mixedCells, List.mem_cons, List.not_mem_nil, or_false, reduceCtorEq, false_or,
      Scalar.number.injEq] at hy
    rcases hy with rfl | rfl <;> decide
  have hread : Number.read? " +25e-1 " = some 2.5 := by decide +kernel
  obtain ⟨n, m, hle, -, -, -, -, hsum⟩ := countIf_partitions hcells hread .greaterEqual
  have hlength : mixedCells.length = 5 := rfl
  exact ⟨hcells, hread, (hsum (by omega)).1⟩

end Spreadsheet
