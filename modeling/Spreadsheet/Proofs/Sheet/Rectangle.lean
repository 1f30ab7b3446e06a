import Mathlib.Data.List.Pairwise
import Spreadsheet.Limits

/-! # The cells of a range

A range whose corners lie within the limits of a sheet is small enough for its sizes to be counted
in words (`Range.Fits`). Then its cells are numbered row by row, from left to right in each row
(`Range.Fits.toNat_cell`), and the cells that it lists are the ones that it contains
(`Range.Fits.mem_cells_iff`), each behind those before it (`Range.Fits.pairwise_cells`).

The same cells are found by a walk that does not number them: `Range.Sweep` holds a place and counts
down how many cells are left. It goes one column on, and from the last column to the first one of
the row below. Place and count are held in words of their own; they belong together at every cell of
the range (`Range.Sweep.At`). Main statement: `Range.cells_spanning`. -/

namespace Spreadsheet.Range

variable {l : Limits} {r : Range} {a b : Address} {i j k : Nat}

/-! ### Sizes -/

/-- The rows and the columns of a range can be counted in the words that number them. -/
structure Fits (r : Range) : Prop where
  rows : r.last.row.toNat - r.first.row.toNat + 1 < UInt32.size
  columns : r.last.column.toNat - r.first.column.toNat + 1 < UInt16.size

theorem contains_limits_iff : l.contains a = true ↔
    a.row.toNat < l.rows.toNat ∧ a.column.toNat < l.columns.toNat := by
  simp only [Limits.contains, Bool.and_eq_true, decide_eq_true_eq, UInt32.lt_iff_toNat_lt,
    UInt16.lt_iff_toNat_lt]

/-- A range with its last corner within the limits of a sheet has sizes that can be counted. -/
theorem fits_of_contains (h : l.contains r.last = true) : r.Fits := by
  obtain ⟨hrow, hcolumn⟩ := contains_limits_iff.mp h
  have hrows := l.rows.toNat_lt_size
  have hcolumns := l.columns.toNat_lt_size
  constructor
  · omega
  · omega

theorem contains_iff : r.contains a = true ↔
    (r.first.row.toNat ≤ a.row.toNat ∧ a.row.toNat ≤ r.last.row.toNat) ∧
      r.first.column.toNat ≤ a.column.toNat ∧ a.column.toNat ≤ r.last.column.toNat := by
  simp only [contains, Bool.and_eq_true, decide_eq_true_eq, UInt32.le_iff_toNat_le,
    UInt16.le_iff_toNat_le, and_assoc]

theorem toNat_row_le (r : Range) : r.first.row.toNat ≤ r.last.row.toNat :=
  UInt32.le_iff_toNat_le.mp r.row_le

theorem toNat_column_le (r : Range) : r.first.column.toNat ≤ r.last.column.toNat :=
  UInt16.le_iff_toNat_le.mp r.column_le

/-- The product of the two sizes has room in its word. -/
theorem toNat_count (r : Range) : r.count.toNat = r.rowCount.toNat * r.columnCount.toNat := by
  have hlt : r.rowCount.toNat * r.columnCount.toNat < UInt64.size :=
    calc r.rowCount.toNat * r.columnCount.toNat < UInt32.size * UInt16.size :=
          Nat.mul_lt_mul_of_lt_of_lt r.rowCount.toNat_lt_size r.columnCount.toNat_lt_size
      _ ≤ UInt64.size := by decide
  rw [count, UInt64.toNat_mul, UInt32.toNat_toUInt64, UInt16.toNat_toUInt64]
  exact Nat.mod_eq_of_lt hlt

theorem Fits.toNat_rowCount (h : r.Fits) :
    r.rowCount.toNat = r.last.row.toNat - r.first.row.toNat + 1 := by
  rw [rowCount, UInt32.toNat_add, UInt32.toNat_sub_of_le _ _ r.row_le]
  exact Nat.mod_eq_of_lt h.rows

theorem Fits.toNat_columnCount (h : r.Fits) :
    r.columnCount.toNat = r.last.column.toNat - r.first.column.toNat + 1 := by
  rw [columnCount, UInt16.toNat_add, UInt16.toNat_sub_of_le _ _ r.column_le]
  exact Nat.mod_eq_of_lt h.columns

theorem Fits.columnCount_pos (h : r.Fits) : 0 < r.columnCount.toNat := by
  rw [h.toNat_columnCount]
  exact Nat.succ_pos _

/-! ### The listed cells -/

theorem length_cells (r : Range) : r.cells.length = r.count.toNat := by
  rw [cells, List.length_map, List.length_range]

theorem div_lt_rowCount (hi : i < r.count.toNat) : i / r.columnCount.toNat < r.rowCount.toNat := by
  rw [toNat_count, Nat.mul_comm] at hi
  exact Nat.div_lt_of_lt_mul hi

/-- **Where the cell with a number lies**: as many rows down as full rows come before it, and as
many columns on as cells are left of them. -/
theorem Fits.toNat_cell (h : r.Fits) (hi : i < r.count.toNat) :
    (r.cell i).row.toNat = r.first.row.toNat + i / r.columnCount.toNat ∧
      (r.cell i).column.toNat = r.first.column.toNat + i % r.columnCount.toNat := by
  have hdown := div_lt_rowCount hi
  have hon : i % r.columnCount.toNat < r.columnCount.toNat := Nat.mod_lt i h.columnCount_pos
  have hrows := h.toNat_rowCount
  have hcolumns := h.toNat_columnCount
  have hlastRow := r.last.row.toNat_lt_size
  have hlastColumn := r.last.column.toNat_lt_size
  have hrow := r.toNat_row_le
  have hcolumn := r.toNat_column_le
  simp only [cell, UInt32.toNat_add, UInt16.toNat_add]
  rw [UInt32.toNat_ofNat_of_lt' (by omega), UInt16.toNat_ofNat_of_lt' (by omega)]
  exact ⟨Nat.mod_eq_of_lt (by simp only [UInt32.size] at hlastRow; omega),
    Nat.mod_eq_of_lt (by simp only [UInt16.size] at hlastColumn; omega)⟩

/-- Every cell that a range contains has a number. -/
theorem Fits.exists_cell (h : r.Fits) (ha : r.contains a = true) :
    ∃ i < r.count.toNat, r.cell i = a := by
  obtain ⟨⟨hrow, hrow'⟩, hcolumn, hcolumn'⟩ := contains_iff.mp ha
  have hrows := h.toNat_rowCount
  have hcolumns := h.toNat_columnCount
  -- the number counts the rows above the cell and the cells to the left of it
  let down := a.row.toNat - r.first.row.toNat
  let on := a.column.toNat - r.first.column.toNat
  have hdown : down < r.rowCount.toNat := by omega
  have hon : on < r.columnCount.toNat := by omega
  have hi : r.columnCount.toNat * down + on < r.count.toNat := by
    rw [toNat_count, Nat.mul_comm r.rowCount.toNat]
    calc r.columnCount.toNat * down + on < r.columnCount.toNat * (down + 1) :=
          Nat.add_lt_add_left hon _
      _ ≤ r.columnCount.toNat * r.rowCount.toNat := Nat.mul_le_mul_left _ hdown
  obtain ⟨hcellRow, hcellColumn⟩ := h.toNat_cell hi
  rw [Nat.mul_add_div h.columnCount_pos, Nat.div_eq_of_lt hon] at hcellRow
  rw [Nat.mul_add_mod, Nat.mod_eq_of_lt hon] at hcellColumn
  exact ⟨_, hi, Address.toNat_inj.mp ⟨by omega, by omega⟩⟩

/-- **A range lists the cells that it contains.** -/
theorem Fits.mem_cells_iff (h : r.Fits) : a ∈ r.cells ↔ r.contains a = true := by
  rw [cells, List.mem_map]
  constructor
  · rintro ⟨i, hi, rfl⟩
    have hi : i < r.count.toNat := List.mem_range.mp hi
    obtain ⟨hcellRow, hcellColumn⟩ := h.toNat_cell hi
    have hdown := div_lt_rowCount hi
    have hon : i % r.columnCount.toNat < r.columnCount.toNat := Nat.mod_lt i h.columnCount_pos
    have hrows := h.toNat_rowCount
    have hcolumns := h.toNat_columnCount
    have hrow := r.toNat_row_le
    have hcolumn := r.toNat_column_le
    rw [contains_iff, hcellRow, hcellColumn]
    generalize i / r.columnCount.toNat = down at hdown
    generalize i % r.columnCount.toNat = on at hon
    omega
  · intro ha
    obtain ⟨i, hi, hcell⟩ := h.exists_cell ha
    exact ⟨i, List.mem_range.mpr hi, hcell⟩

theorem Fits.before_cell (h : r.Fits) (hij : i < j) (hj : j < r.count.toNat) :
    (r.cell i).Before (r.cell j) := by
  obtain ⟨hrow, hcolumn⟩ := h.toNat_cell (Nat.lt_trans hij hj)
  obtain ⟨hrow', hcolumn'⟩ := h.toNat_cell hj
  have hdiv : i / r.columnCount.toNat ≤ j / r.columnCount.toNat :=
    Nat.div_le_div_right (Nat.le_of_lt hij)
  have hi := Nat.div_add_mod i r.columnCount.toNat
  have hj := Nat.div_add_mod j r.columnCount.toNat
  rw [Address.Before, UInt32.lt_iff_toNat_lt, UInt16.lt_iff_toNat_lt, ← UInt32.toNat_inj, hrow,
    hrow', hcolumn, hcolumn']
  rcases Nat.lt_or_eq_of_le hdiv with hlt | heq
  · exact Or.inl (Nat.add_lt_add_left hlt _)
  · rw [heq] at hi ⊢
    exact Or.inr ⟨rfl, by omega⟩

/-- **A range lists each of its cells behind those before it.** -/
theorem Fits.pairwise_cells (h : r.Fits) : r.cells.Pairwise Address.Before := by
  rw [cells, List.pairwise_map]
  refine List.Pairwise.imp_of_mem ?_ List.pairwise_lt_range
  intro i j _ hj hij
  exact h.before_cell hij (List.mem_range.mp hj)

/-- The last cell of a row is the one in the last column. -/
theorem Fits.column_cell_eq_iff (h : r.Fits) (hi : i < r.count.toNat) :
    (r.cell i).column = r.last.column ↔ i % r.columnCount.toNat + 1 = r.columnCount.toNat := by
  have hcolumns := h.toNat_columnCount
  have hcolumn := r.toNat_column_le
  rw [← UInt16.toNat_inj, (h.toNat_cell hi).2]
  omega

/-- **The cell behind a cell** is the one to its right, and behind the last one of a row it is the
first one of the row below. -/
theorem Fits.cell_succ (h : r.Fits) (hi : i + 1 < r.count.toNat) : r.cell (i + 1) =
    if (r.cell i).column = r.last.column then ⟨(r.cell i).row + 1, r.first.column⟩
    else ⟨(r.cell i).row, (r.cell i).column + 1⟩ := by
  have hpos := h.columnCount_pos
  have hmod := Nat.mod_lt i hpos
  have hdecomposed := Nat.div_add_mod i r.columnCount.toNat
  have hcolumn := h.column_cell_eq_iff (Nat.lt_of_succ_lt hi)
  by_cases hend : i % r.columnCount.toNat + 1 = r.columnCount.toNat
  · obtain ⟨hdiv, hmod⟩ : (i + 1) / r.columnCount.toNat = i / r.columnCount.toNat + 1 ∧
        (i + 1) % r.columnCount.toNat = 0 := by
      rw [Nat.div_mod_unique hpos, Nat.mul_succ]
      omega
    rw [if_pos (hcolumn.mpr hend), cell, hdiv, hmod, UInt32.ofNat_add, ← UInt32.add_assoc]
    exact congrArg _ (UInt16.add_zero _)
  · obtain ⟨hdiv, hmod⟩ : (i + 1) / r.columnCount.toNat = i / r.columnCount.toNat ∧
        (i + 1) % r.columnCount.toNat = i % r.columnCount.toNat + 1 := by
      rw [Nat.div_mod_unique hpos]
      omega
    rw [if_neg (mt hcolumn.mp hend), cell, hdiv, hmod, UInt16.ofNat_add, ← UInt16.add_assoc]
    rfl

/-- There is a row below the last cell of a row, unless it is the last one of all. -/
theorem Fits.row_add_one_ne_zero (h : r.Fits) (hi : i + 1 < r.count.toNat)
    (hcolumn : (r.cell i).column = r.last.column) : (r.cell i).row + 1 ≠ 0 := by
  intro hzero
  have hnext := (h.toNat_cell hi).1
  rw [h.cell_succ hi, if_pos hcolumn, hzero] at hnext
  have hdown := Nat.div_pos (a := i + 1) (b := r.columnCount.toNat) ?_ h.columnCount_pos
  · rw [UInt32.toNat_zero] at hnext
    omega
  · have hend := (h.column_cell_eq_iff (Nat.lt_of_succ_lt hi)).mp hcolumn
    have := Nat.mod_le i r.columnCount.toNat
    omega

/-! ### Going from cell to cell -/

section

variable {α : Type}

/-- What up to `k` steps of a walk give, and the walk behind them. -/
def taken (next? : α → Option (Address × α)) : (k : Nat) → (w : α) → List Address × α
  | 0, w => ([], w)
  | k + 1, w =>
    match next? w with
    | none => ([], w)
    | some (a, w) => (a :: (taken next? k w).1, (taken next? k w).2)

/-- **A walk gives some cells** if each step gives the next of them, and none is behind the last. -/
theorem exists_taken (next? : α → Option (Address × α)) (passed : Nat → α → Prop)
    {xs : List Address}
    (hnext : ∀ i w, passed i w → ∀ a, xs[i]? = some a →
      ∃ w', next? w = some (a, w') ∧ passed (i + 1) w')
    (hend : ∀ i w, passed i w → xs[i]? = none → next? w = none) {w : α} (hi : i ≤ xs.length)
    (h : passed i w) (k : Nat) :
    ∃ w', taken next? k w = ((xs.drop i).take k, w') ∧ passed (min (i + k) xs.length) w' := by
  induction k generalizing i w with
  | zero =>
    refine ⟨w, by rw [List.take_zero, taken], ?_⟩
    rwa [Nat.add_zero, Nat.min_eq_left hi]
  | succ k ih =>
    rw [taken]
    cases ha : xs[i]? with
    | none =>
      have hlast : xs.length ≤ i := List.getElem?_eq_none_iff.mp ha
      rw [hend i w h ha, List.drop_eq_nil_of_le hlast, List.take_nil]
      refine ⟨w, rfl, ?_⟩
      rwa [Nat.min_eq_right (Nat.le_trans hlast (Nat.le_add_right i _)), Nat.le_antisymm hlast hi]
    | some a =>
      obtain ⟨hlt, rfl⟩ := List.getElem?_eq_some_iff.mp ha
      obtain ⟨w', hw', hpassed⟩ := hnext i w h _ ha
      obtain ⟨w'', htaken, hbehind⟩ := ih hlt hpassed
      rw [hw', List.drop_eq_getElem_cons hlt, List.take_succ_cons]
      refine ⟨w'', ?_, ?_⟩
      · show (_ :: (taken next? k w').1, (taken next? k w').2) = _
        rw [htaken]
      · rwa [Nat.succ_add_eq_add_succ] at hbehind

end

theorem getElem?_cells_eq_some :
    r.cells[i]? = some a ↔ i < r.count.toNat ∧ r.cell i = a := by
  rw [cells, List.getElem?_map, Option.map_eq_some_iff]
  constructor
  · rintro ⟨j, hj, rfl⟩
    obtain ⟨hi, rfl⟩ := List.getElem?_eq_some_iff.mp hj
    rw [List.getElem_range]
    exact ⟨by simpa using hi, rfl⟩
  · rintro ⟨hi, rfl⟩
    exact ⟨i, List.getElem?_range hi, rfl⟩

theorem getElem?_cells_eq_none : r.cells[i]? = none ↔ r.count.toNat ≤ i := by
  rw [List.getElem?_eq_none_iff, length_cells]

theorem Cursor.take_eq_taken (k : Nat) (c : Cursor) : c.take k = taken next? k c := by
  induction k generalizing c with
  | zero => rfl
  | succ k ih =>
    rw [take, taken]
    cases c.next? with
    | none => rfl
    | some p => simp only [ih]

/-- A walk over the cells of a range that holds its place. -/
structure Sweep where
  range : Range
  row : UInt32
  column : UInt16
  /-- How many cells are still to come. -/
  left : UInt64

/-- The walk before the first cell. -/
def sweep (r : Range) : Sweep := ⟨r, r.first.row, r.first.column, r.count⟩

namespace Sweep

variable {w : Sweep}

/-- The cell at the place of the walk, and the walk at the next place: one column on, or in the
first column of the row below. Below the last row there can be is that row again. -/
def next? (w : Sweep) : Option (Address × Sweep) :=
  if w.left = 0 then none
  else if w.column = w.range.last.column then
    some (⟨w.row, w.column⟩,
      { w with
        row := if w.row + 1 = 0 then w.row else w.row + 1
        column := w.range.first.column
        left := w.left - 1 })
  else some (⟨w.row, w.column⟩, { w with column := w.column + 1, left := w.left - 1 })

/-- The walk over the range `r` has passed `i` cells. -/
structure At (r : Range) (i : Nat) (w : Sweep) : Prop where
  range : w.range = r
  left : w.left.toNat = r.count.toNat - i
  place : i < r.count.toNat → ⟨w.row, w.column⟩ = r.cell i

theorem at_sweep (r : Range) : At r 0 r.sweep where
  range := rfl
  left := rfl
  place _ := by
    rw [cell, Nat.zero_div, Nat.zero_mod]
    exact congrArg₂ Address.mk (UInt32.add_zero _).symm (UInt16.add_zero _).symm

theorem At.next?_eq_none (h : At r i w) (hi : r.count.toNat ≤ i) : w.next? = none := by
  have hleft : w.left = 0 := UInt64.toNat_inj.mp (by rw [h.left]; exact Nat.sub_eq_zero_of_le hi)
  rw [next?, if_pos hleft]

/-- **Passing a cell** leaves the walk at the next one. -/
theorem At.step (hr : r.Fits) (h : At r i w) (hi : i < r.count.toNat) :
    ∃ w', w.next? = some (r.cell i, w') ∧ At r (i + 1) w' := by
  obtain ⟨rfl, hleft, hplace⟩ := h
  have hne : w.left ≠ 0 := by
    intro hzero
    rw [hzero] at hleft
    exact absurd hleft.symm (Nat.sub_ne_zero_of_lt hi)
  have hless : (w.left - 1).toNat = w.range.count.toNat - (i + 1) := by
    have hone : (1 : UInt64) ≤ w.left := by
      rw [UInt64.le_iff_toNat_le, hleft]
      exact Nat.sub_pos_of_lt hi
    rw [UInt64.toNat_sub_of_le _ _ hone, hleft]
    rfl
  rw [next?, if_neg hne, ← hplace hi]
  by_cases hcolumn : w.column = w.range.last.column
  · rw [if_pos hcolumn]
    refine ⟨_, rfl, rfl, hless, fun hnext => ?_⟩
    rw [hr.cell_succ hnext, ← hplace hi, if_pos hcolumn]
    have hrow : w.row + 1 ≠ 0 := by
      have := hr.row_add_one_ne_zero hnext (by rw [← hplace hi]; exact hcolumn)
      rwa [← hplace hi] at this
    simp only [if_neg hrow]
  · rw [if_neg hcolumn]
    refine ⟨_, rfl, rfl, hless, fun hnext => ?_⟩
    rw [hr.cell_succ hnext, ← hplace hi, if_neg hcolumn]

end Sweep

/-- **A walk that holds its place gives the cells of the range**, and counts down how many are left.
-/
theorem Fits.exists_taken_sweep (h : r.Fits) (k : Nat) :
    ∃ w, taken Sweep.next? k r.sweep = (r.cells.take k, w) ∧
      w.left.toNat = r.count.toNat - k ∧ (r.count.toNat ≤ k → w.next? = none) := by
  obtain ⟨w, htaken, hw⟩ := exists_taken Sweep.next? (Sweep.At r)
    (fun i w hw a ha => by
      obtain ⟨hi, rfl⟩ := getElem?_cells_eq_some.mp ha
      exact hw.step h hi)
    (fun i w hw ha => hw.next?_eq_none (getElem?_cells_eq_none.mp ha))
    (Nat.zero_le _) (Sweep.at_sweep r) k
  rw [Nat.zero_add, length_cells] at hw
  refine ⟨w, htaken, ?_, fun hk => hw.next?_eq_none (by omega)⟩
  rw [hw.left]
  omega

/-- A walk that numbers the cells gives them in the same way. -/
theorem exists_take_start (r : Range) (k : Nat) :
    ∃ c, r.start.take k = (r.cells.take k, c) ∧
      c.left = r.count.toNat - k ∧ (r.count.toNat ≤ k → c.next? = none) := by
  have hend : ∀ i, r.count.toNat ≤ i → Cursor.next? ⟨r, i⟩ = none :=
    fun i hi => if_neg (Nat.not_lt.mpr hi)
  have hstep : ∀ i, i < r.count.toNat →
      Cursor.next? ⟨r, i⟩ = some (r.cell i, ⟨r, i + 1⟩) := fun i hi => if_pos hi
  obtain ⟨c, htaken, hc⟩ := exists_taken Cursor.next? (fun i c => c = ⟨r, i⟩)
    (fun i c hc a ha => by
      obtain ⟨hi, rfl⟩ := getElem?_cells_eq_some.mp ha
      exact ⟨_, hc ▸ hstep i hi, rfl⟩)
    (fun i c hc ha => hc ▸ hend i (getElem?_cells_eq_none.mp ha))
    (Nat.zero_le _) rfl k
  rw [Nat.zero_add, length_cells] at hc
  refine ⟨c, (Cursor.take_eq_taken k r.start).trans htaken, ?_, fun hk => ?_⟩
  · rw [hc]
    show r.count.toNat - min k r.count.toNat = _
    omega
  · rw [hc]
    exact hend _ (by omega)

/-! ### Ranges between two cells of a sheet -/

theorem toNat_spanning (a b : Address) :
    ((spanning a b).first.row.toNat = min a.row.toNat b.row.toNat ∧
      (spanning a b).last.row.toNat = max a.row.toNat b.row.toNat) ∧
    (spanning a b).first.column.toNat = min a.column.toNat b.column.toNat ∧
      (spanning a b).last.column.toNat = max a.column.toNat b.column.toNat := by
  simp only [spanning, UInt32.le_iff_toNat_le, UInt16.le_iff_toNat_le]
  refine ⟨⟨?_, ?_⟩, ?_, ?_⟩ <;> split <;> omega

/-- The corners of a range between two cells lie where the cells do. -/
theorem contains_spanning (ha : l.contains a = true) (hb : l.contains b = true) :
    l.contains (spanning a b).first = true ∧ l.contains (spanning a b).last = true := by
  obtain ⟨⟨hfirstRow, hlastRow⟩, hfirstColumn, hlastColumn⟩ := toNat_spanning a b
  rw [contains_limits_iff] at ha hb
  rw [contains_limits_iff, contains_limits_iff, hfirstRow, hlastRow, hfirstColumn, hlastColumn]
  omega

theorem nodup_of_pairwise_before {cells : List Address} (h : cells.Pairwise Address.Before) :
    cells.Nodup := by
  refine h.imp fun {a b} hab => ?_
  rintro rfl
  exact Nat.lt_irrefl _ (Address.index_lt_iff.mpr hab)

/-- **The cells of a range between two cells of a sheet.** The sizes of the range are counted
without overflow. It lists every cell that it contains once and no other cell, row by row and from
left to right. So does a walk from cell to cell, whether it numbers the cells or holds its place:
after any number of steps the rest of the cells is still to come, and behind the last of them there
is no other. -/
theorem cells_spanning (ha : l.contains a = true) (hb : l.contains b = true) :
    let r := spanning a b
    (r.rowCount.toNat = max a.row.toNat b.row.toNat - min a.row.toNat b.row.toNat + 1 ∧
      r.columnCount.toNat =
        max a.column.toNat b.column.toNat - min a.column.toNat b.column.toNat + 1 ∧
      r.count.toNat = r.rowCount.toNat * r.columnCount.toNat) ∧
    (∀ c, r.cells.count c = if r.contains c = true then 1 else 0) ∧
    r.cells.Pairwise Address.Before ∧
    (∀ k, ∃ c, r.start.take k = (r.cells.take k, c) ∧
      c.left = r.count.toNat - k ∧ (r.count.toNat ≤ k → c.next? = none)) ∧
    ∀ k, ∃ w, taken Sweep.next? k r.sweep = (r.cells.take k, w) ∧
      w.left.toNat = r.count.toNat - k ∧ (r.count.toNat ≤ k → w.next? = none) := by
  intro r
  have hfits : r.Fits := fits_of_contains (contains_spanning ha hb).2
  obtain ⟨⟨hfirstRow, hlastRow⟩, hfirstColumn, hlastColumn⟩ := toNat_spanning a b
  refine ⟨⟨?_, ?_, toNat_count r⟩, fun c => ?_, hfits.pairwise_cells, exists_take_start r,
    hfits.exists_taken_sweep⟩
  · rw [hfits.toNat_rowCount, hfirstRow, hlastRow]
  · rw [hfits.toNat_columnCount, hfirstColumn, hlastColumn]
  · rw [(nodup_of_pairwise_before hfits.pairwise_cells).count]
    simp only [hfits.mem_cells_iff]

/-- The two last rows of the largest sheet, whose last row and column have the greatest numbers
there are room for. -/
theorem cells_spanning_largest :
    let l : Limits := ⟨4294967295, 65535⟩
    let r := spanning ⟨4294967294, 0⟩ ⟨4294967293, 65534⟩
    l.contains ⟨4294967294, 0⟩ = true ∧ l.contains ⟨4294967293, 65534⟩ = true ∧
      r.count.toNat = 131070 ∧ r.cells.count ⟨4294967294, 65534⟩ = 1 ∧
      r.cells.count ⟨4294967295, 0⟩ = 0 ∧
      ∃ w, taken Sweep.next? 131070 r.sweep = (r.cells.take 131070, w) ∧ w.next? = none := by
  intro l r
  have ha : l.contains ⟨4294967294, 0⟩ = true := by decide
  have hb : l.contains ⟨4294967293, 65534⟩ = true := by decide
  obtain ⟨⟨hrows, hcolumns, hcount⟩, hcells, -, -, hsweep⟩ := cells_spanning ha hb
  have hsize : r.count.toNat = 131070 := by
    rw [hcount, hrows, hcolumns]
    decide
  obtain ⟨w, htaken, -, hend⟩ := hsweep 131070
  exact ⟨ha, hb, hsize, (hcells _).trans (if_pos (by decide)),
    (hcells _).trans (if_neg (by decide)), w, htaken, hend (Nat.le_of_eq hsize)⟩

end Spreadsheet.Range
