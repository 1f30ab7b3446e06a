import Spreadsheet.Proofs.Csv.Grid
import Mathlib.Data.List.MinMax
import Mathlib.Order.Defs.LinearOrder

/-! # Writing cells in any order

`text_eq_lookup`: the text of any list of cells, in any order and with any repetitions, is what
looking up each place on its own gives, from the first row and column to the last ones that occur;
where a place occurs several times, its last text counts (`latest?_eq_some_iff`).

The cells are put in order before they are written. Neither the texts at the places
(`latest?_inOrder`) nor the last row and column (`extent_inOrder`) change by that. -/

namespace Spreadsheet.Csv

variable {cells : Cells} {t : String} {r c : Nat}

/-- **The text of a place is that of its last occurrence.** -/
theorem latest?_eq_some_iff : latest? cells r c = some t ↔
    ∃ before a after, cells = before ++ (a, t) :: after ∧ a.row.toNat = r ∧ a.column.toNat = c ∧
      ∀ p ∈ after, ¬(p.1.row.toNat = r ∧ p.1.column.toNat = c) := by
  rw [latest?, Option.map_eq_some_iff]
  constructor
  · rintro ⟨⟨a, t⟩, hfind, rfl⟩
    obtain ⟨hplace, after, before, hcells, hafter⟩ := List.find?_eq_some_iff_append.mp hfind
    rw [decide_eq_true_eq] at hplace
    refine ⟨before.reverse, a, after.reverse, ?_, hplace.1, hplace.2, fun p hp => ?_⟩
    · rw [← List.reverse_reverse cells, hcells]
      simp
    · simpa only [Bool.not_eq_true', decide_eq_false_iff_not] using
        hafter p (List.mem_reverse.mp hp)
  · rintro ⟨before, a, after, rfl, hrow, hcolumn, hafter⟩
    refine ⟨(a, t), List.find?_eq_some_iff_append.mpr ⟨by simp [hrow, hcolumn], after.reverse,
      before.reverse, by simp, fun p hp => ?_⟩, rfl⟩
    simpa only [Bool.not_eq_true', decide_eq_false_iff_not] using
      hafter p (List.mem_reverse.mp hp)

/-! ### Putting cells in order -/

theorem latest?_inOrder (cells : Cells) (r c : Nat) :
    latest? (inOrder cells) r c = latest? cells r c := by
  have hinOrder : InOrder (inOrder cells) := inOrder_toList _
  ext t
  constructor
  · intro h
    obtain ⟨a, ha, rfl, rfl⟩ := mem_of_latest? h
    exact mem_inOrder.mp ha
  · intro h
    obtain ⟨a, -, rfl, rfl⟩ := mem_of_latest? h
    exact hinOrder.mem_iff.mp (mem_inOrder.mpr h)

theorem valueAt_inOrder (cells : Cells) : valueAt (inOrder cells) = valueAt cells := by
  funext r c
  rw [valueAt, latest?_inOrder, valueAt]

theorem isSome_latest?_of_mem {a : Address} (ha : (a, t) ∈ cells) :
    (latest? cells a.row.toNat a.column.toNat).isSome := by
  rw [latest?, Option.isSome_map, List.find?_isSome]
  exact ⟨(a, t), List.mem_reverse.mpr ha, by simp⟩

/-- Putting cells in order keeps their places. -/
theorem exists_mem_inOrder {a : Address} : (∃ t, (a, t) ∈ inOrder cells) ↔ ∃ t, (a, t) ∈ cells := by
  constructor
  · rintro ⟨t, ht⟩
    obtain ⟨b, hb, hplace⟩ := mem_of_latest? (mem_inOrder.mp ht)
    exact ⟨t, Address.toNat_inj.mp hplace ▸ hb⟩
  · rintro ⟨t, ht⟩
    obtain ⟨u, hu⟩ := Option.isSome_iff_exists.mp (isSome_latest?_of_mem ht)
    exact ⟨u, mem_inOrder.mpr hu⟩

/-! ### The last row and column -/

/-- The number of places up to the last one that occurs; `height` and `width` are two such. -/
def extent (g : Address → Nat) (cells : Cells) : Nat :=
  cells.foldl (fun n p => max n (g p.1 + 1)) 0

theorem height_eq_extent (cells : Cells) : height cells = extent (·.row.toNat) cells := rfl

theorem width_eq_extent (cells : Cells) : width cells = extent (·.column.toNat) cells := rfl

section

variable {g : Address → Nat} {n : Nat}

theorem extent_le_iff : extent g cells ≤ n ↔ ∀ a, (∃ t, (a, t) ∈ cells) → g a < n := by
  obtain ⟨-, hall, hex⟩ := foldl_max (fun p : Address × String => g p.1 + 1) cells 0
  constructor
  · rintro h a ⟨t, ha⟩
    exact Nat.le_trans (hall (a, t) ha) h
  · intro h
    rcases hex with hzero | ⟨⟨a, t⟩, ha, hextent⟩
    · rw [extent, hzero]
      exact Nat.zero_le n
    · rw [extent, ← hextent]
      exact h a ⟨t, ha⟩

theorem extent_inOrder (g : Address → Nat) (cells : Cells) :
    extent g (inOrder cells) = extent g cells :=
  eq_of_forall_ge_iff fun n => by simp only [extent_le_iff, exists_mem_inOrder]

theorem extent_eq_of_max? (h : (cells.map fun p => g p.1).max? = some n) :
    extent g cells = n + 1 := by
  obtain ⟨hmem, hmax⟩ := List.max?_eq_some_iff.mp h
  obtain ⟨⟨a, t⟩, ha, rfl⟩ := List.mem_map.mp hmem
  refine Nat.le_antisymm (extent_le_iff.mpr ?_) (extent_le_iff.mp (Nat.le_refl _) a ⟨t, ha⟩)
  rintro b ⟨u, hb⟩
  exact Nat.lt_succ_of_le (hmax _ (List.mem_map.mpr ⟨(b, u), hb, rfl⟩))

end

/-! ### The text -/

/-- The text of some cells by looking up each place, up to the last row and column that occur; the
empty text if there are no cells. -/
def lookupText (f : Format) (cells : Cells) : String :=
  match (cells.map fun p => p.1.row.toNat).max?, (cells.map fun p => p.1.column.toNat).max? with
  | some lastRow, some lastColumn =>
    String.intercalate f.terminator.text <| (List.range (lastRow + 1)).map fun r =>
      String.intercalate f.delimiter.toString <| (List.range (lastColumn + 1)).map fun c =>
        (latest? cells r c).getD ""
  | _, _ => ""

/-- **Writing is looking up each place.** The text of cells in any order, with any repetitions, has
at each place the text that stands there last in the list, or the empty one, and nothing else; it is
the empty text if there are no cells. -/
theorem text_eq_lookup (f : Format) (cells : Cells) :
    text f cells = lookupText f cells ∧
    (∀ r c t, latest? cells r c = some t ↔
      ∃ before a after, cells = before ++ (a, t) :: after ∧ a.row.toNat = r ∧ a.column.toNat = c ∧
        ∀ p ∈ after, ¬(p.1.row.toNat = r ∧ p.1.column.toNat = c)) ∧
    text f [] = "" := by
  refine ⟨?_, fun r c t => latest?_eq_some_iff, rfl⟩
  have hgrid : text f cells = join f ((List.range (height cells)).map fun r =>
      (List.range (width cells)).map (valueAt cells r)) := by
    have hinOrder : InOrder (inOrder cells) := inOrder_toList _
    rw [text, grid_eq hinOrder, valueAt_inOrder, height_eq_extent, width_eq_extent,
      extent_inOrder, extent_inOrder, ← height_eq_extent, ← width_eq_extent]
  rw [hgrid, lookupText]
  split
  · next lastRow lastColumn hrow hcolumn =>
    have hheight : extent (·.row.toNat) cells = lastRow + 1 := extent_eq_of_max? hrow
    have hwidth : extent (·.column.toNat) cells = lastColumn + 1 := extent_eq_of_max? hcolumn
    rw [height_eq_extent, width_eq_extent, hheight, hwidth, join, List.map_map]
    rfl
  · next hnone =>
    have hcells : cells = [] := by
      by_contra hne
      obtain ⟨p, rest, rfl⟩ := List.exists_cons_of_ne_nil hne
      exact hnone _ _ List.max?_cons' List.max?_cons'
    rw [hcells]
    rfl

end Spreadsheet.Csv
