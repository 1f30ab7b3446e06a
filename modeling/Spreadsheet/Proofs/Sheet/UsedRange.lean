import Spreadsheet.Proofs.Csv.Lookup
import Spreadsheet.Proofs.Sheet.History
import Spreadsheet.Proofs.Sheet.Rectangle

/-! # The range in use

The range in use is found in one pass over the cells that hold a text, which come row by row: four
bounds are kept, and each cell moves those that it lies beyond (`Store.cover`). The cells that have
been passed are *framed* by the range (`Range.Frames`): it has all of them, and one of them lies on
each of its four sides. Each cell keeps this (`Range.Frames.cover`), and so does the whole pass
(`Range.Frames.foldl`).

Main statement: `Store.usedRange?_smallest`. A range that frames some cells lies within every range
that has all of them (`Range.Frames.within`), and the sheet is written up to the last row and column
of the range in use (`Store.text_toList`), though these are found by a pass of its own. -/

namespace Spreadsheet

namespace Range

variable {r q : Range} {cells passed : List Address} {a b : Address}

/-- **The range has all of the cells, and one of them on each side.** -/
structure Frames (r : Range) (cells : List Address) : Prop where
  contains : ∀ a ∈ cells, r.contains a = true
  top : ∃ a ∈ cells, a.row = r.first.row
  bottom : ∃ a ∈ cells, a.row = r.last.row
  left : ∃ a ∈ cells, a.column = r.first.column
  right : ∃ a ∈ cells, a.column = r.last.column

/-! ### One cell more -/

/-- The four bounds, each moved as far as the cell. -/
theorem toNat_cover (r : Range) (b : Address) :
    ((Store.cover r b).first.row.toNat = min r.first.row.toNat b.row.toNat ∧
      (Store.cover r b).last.row.toNat = max r.last.row.toNat b.row.toNat) ∧
    (Store.cover r b).first.column.toNat = min r.first.column.toNat b.column.toNat ∧
      (Store.cover r b).last.column.toNat = max r.last.column.toNat b.column.toNat := by
  have hrow := r.toNat_row_le
  have hcolumn := r.toNat_column_le
  simp only [Store.cover, toNat_spanning, UInt32.lt_iff_toNat_lt, UInt16.lt_iff_toNat_lt]
  refine ⟨⟨?_, ?_⟩, ?_, ?_⟩ <;> split <;> split <;> omega

theorem contains_cover : (Store.cover r b).contains a = true ↔
      (min r.first.row.toNat b.row.toNat ≤ a.row.toNat ∧
        a.row.toNat ≤ max r.last.row.toNat b.row.toNat) ∧
      min r.first.column.toNat b.column.toNat ≤ a.column.toNat ∧
        a.column.toNat ≤ max r.last.column.toNat b.column.toNat := by
  obtain ⟨⟨hfirstRow, hlastRow⟩, hfirstColumn, hlastColumn⟩ := toNat_cover r b
  rw [contains_iff, hfirstRow, hlastRow, hfirstColumn, hlastColumn]

/-- A side of the larger range is where it was, or where the cell lies. -/
theorem exists_on_side {α : Type} {g : Address → α} {k l : α} (h : ∃ a ∈ passed, g a = k)
    (hl : l = k ∨ l = g b) : ∃ a ∈ passed ++ [b], g a = l := by
  rcases hl with rfl | rfl
  · obtain ⟨a, ha, hga⟩ := h
    exact ⟨a, List.mem_append_left _ ha, hga⟩
  · exact ⟨b, List.mem_append_right _ List.mem_cons_self, rfl⟩

/-- **Covering one cell more keeps the cells framed.** -/
theorem Frames.cover (h : r.Frames passed) (b : Address) :
    (Store.cover r b).Frames (passed ++ [b]) := by
  obtain ⟨⟨hfirstRow, hlastRow⟩, hfirstColumn, hlastColumn⟩ := toNat_cover r b
  refine ⟨fun a ha => ?_, exists_on_side h.top ?_, exists_on_side h.bottom ?_,
    exists_on_side h.left ?_, exists_on_side h.right ?_⟩
  · rw [contains_cover]
    rcases List.mem_append.mp ha with ha | ha
    · have := contains_iff.mp (h.contains a ha)
      omega
    · obtain rfl := List.mem_singleton.mp ha
      omega
  · rw [← UInt32.toNat_inj, ← UInt32.toNat_inj, hfirstRow]
    omega
  · rw [← UInt32.toNat_inj, ← UInt32.toNat_inj, hlastRow]
    omega
  · rw [← UInt16.toNat_inj, ← UInt16.toNat_inj, hfirstColumn]
    omega
  · rw [← UInt16.toNat_inj, ← UInt16.toNat_inj, hlastColumn]
    omega

theorem frames_single (a : Address) : (single a).Frames [a] where
  contains b hb := by
    obtain rfl := List.mem_singleton.mp hb
    rw [contains_iff]
    exact ⟨⟨Nat.le_refl _, Nat.le_refl _⟩, Nat.le_refl _, Nat.le_refl _⟩
  top := ⟨a, List.mem_cons_self, rfl⟩
  bottom := ⟨a, List.mem_cons_self, rfl⟩
  left := ⟨a, List.mem_cons_self, rfl⟩
  right := ⟨a, List.mem_cons_self, rfl⟩

/-! ### All cells -/

/-- By induction on the cells that are to come; those passed are framed at every step. -/
theorem Frames.foldl (h : r.Frames passed) (rest : List Address) :
    (rest.foldl Store.cover r).Frames (passed ++ rest) := by
  induction rest generalizing r passed with
  | nil => rwa [List.append_nil]
  | cons b rest ih =>
    rw [List.foldl_cons, List.append_cons]
    exact ih (h.cover b)

/-- **A range that frames some cells lies within every range that has them.** -/
theorem Frames.within (h : r.Frames cells) (hq : ∀ a ∈ cells, q.contains a = true)
    (hb : r.contains b = true) : q.contains b = true := by
  obtain ⟨top, htop, hfirstRow⟩ := h.top
  obtain ⟨bottom, hbottom, hlastRow⟩ := h.bottom
  obtain ⟨left, hleft, hfirstColumn⟩ := h.left
  obtain ⟨right, hright, hlastColumn⟩ := h.right
  have htop := contains_iff.mp (hq top htop)
  have hbottom := contains_iff.mp (hq bottom hbottom)
  have hleft := contains_iff.mp (hq left hleft)
  have hright := contains_iff.mp (hq right hright)
  rw [contains_iff, ← hfirstRow, ← hlastRow, ← hfirstColumn, ← hlastColumn] at hb
  rw [contains_iff]
  omega

end Range

/-! ### The cells of a sheet -/

namespace Store

variable {s : Store} {r : Range}

theorem isEmpty_iff : s.isEmpty = true ↔ s.addresses = [] := by
  rw [isEmpty, addresses, ← Std.TreeMap.isEmpty_keys, List.isEmpty_iff]

theorem usedRange?_eq_none : s.usedRange? = none ↔ s.isEmpty = true := by
  rw [isEmpty_iff, usedRange?]
  cases s.addresses with
  | nil => simp
  | cons a rest => simp

theorem frames_usedRange (h : s.usedRange? = some r) : r.Frames s.addresses := by
  unfold usedRange? at h
  split at h
  · cases h
  · next a rest hs =>
    cases h
    rw [hs]
    exact (Range.frames_single a).foldl rest

/-- The written sheet reaches just behind the greatest place in use. -/
theorem extent_toList {g : Address → Nat} {k : Nat} (hle : ∀ a ∈ s.addresses, g a ≤ k)
    (hex : ∃ a ∈ s.addresses, g a = k) : Csv.extent g s.toList = k + 1 := by
  have hmem : ∀ a, (∃ t, (a, t) ∈ s.toList) ↔ a ∈ s.addresses := fun a => by
    rw [← map_fst_toList, List.mem_map]
    simp
  refine eq_of_forall_ge_iff fun n => ?_
  simp only [Csv.extent_le_iff, hmem]
  constructor
  · intro h
    obtain ⟨a, ha, rfl⟩ := hex
    exact h a ha
  · intro h a ha
    exact Nat.lt_of_le_of_lt (hle a ha) h

/-- The text of the sheet has the lines and the fields up to the end of the range in use. -/
theorem text_toList (h : s.usedRange? = some r) (f : Csv.Format) :
    Csv.text f s.toList = Csv.join f ((List.range (r.last.row.toNat + 1)).map fun row =>
      (List.range (r.last.column.toNat + 1)).map (Csv.valueAt s.toList row)) := by
  have hframes := frames_usedRange h
  have hinOrder : Csv.InOrder s.toList := Csv.inOrder_toList s.cells
  have hheight : Csv.height s.toList = r.last.row.toNat + 1 := by
    rw [Csv.height_eq_extent]
    refine extent_toList (fun a ha => ?_) ?_
    · exact (Range.contains_iff.mp (hframes.contains a ha)).1.2
    · obtain ⟨a, ha, hrow⟩ := hframes.bottom
      exact ⟨a, ha, congrArg _ hrow⟩
  have hwidth : Csv.width s.toList = r.last.column.toNat + 1 := by
    rw [Csv.width_eq_extent]
    refine extent_toList (fun a ha => ?_) ?_
    · exact (Range.contains_iff.mp (hframes.contains a ha)).2.2
    · obtain ⟨a, ha, hcolumn⟩ := hframes.right
      exact ⟨a, ha, congrArg _ hcolumn⟩
  rw [Csv.text, hinOrder.inOrder_eq, Csv.grid_eq hinOrder, hheight, hwidth]

/-- **The range in use is the smallest one that has all cells with a text.** There is none exactly
if the sheet is empty. Otherwise its corners are in order, it has every cell with a text, it lies
within every range that has them, and on each of its sides lies one of them. The lines of the
written sheet end at its last column, and its last row is the last line. -/
theorem usedRange?_smallest (s : Store) :
    (s.usedRange? = none ↔ s.isEmpty = true) ∧
    ∀ r, s.usedRange? = some r →
      (r.first.row ≤ r.last.row ∧ r.first.column ≤ r.last.column) ∧
      (∀ a ∈ s.addresses, r.contains a = true) ∧
      (∀ q : Range, (∀ a ∈ s.addresses, q.contains a = true) →
        ∀ b, r.contains b = true → q.contains b = true) ∧
      ((∃ a ∈ s.addresses, a.row = r.first.row) ∧ (∃ a ∈ s.addresses, a.row = r.last.row) ∧
        (∃ a ∈ s.addresses, a.column = r.first.column) ∧
        ∃ a ∈ s.addresses, a.column = r.last.column) ∧
      ∀ f, Csv.text f s.toList = Csv.join f ((List.range (r.last.row.toNat + 1)).map fun row =>
        (List.range (r.last.column.toNat + 1)).map (Csv.valueAt s.toList row)) := by
  refine ⟨usedRange?_eq_none, fun r hr => ?_⟩
  have h := frames_usedRange hr
  exact ⟨⟨r.row_le, r.column_le⟩, h.contains, fun q hq b hb => h.within hq hb,
    ⟨h.top, h.bottom, h.left, h.right⟩, text_toList hr⟩

/-- A sheet whose cells do not stand at the corners of its range in use. -/
def corners : Store :=
  after {} [.write ⟨6, 0⟩ "x", .writeAt "C2" "1", .writeAt "b5" "2", .remove ⟨6, 0⟩]

theorem corners_smallest :
    corners.usedRange? = some (.spanning ⟨1, 1⟩ ⟨4, 2⟩) ∧
    (∀ q : Range, q.contains ⟨1, 2⟩ = true → q.contains ⟨4, 1⟩ = true →
      q.contains ⟨1, 1⟩ = true ∧ q.contains ⟨4, 2⟩ = true) ∧
    Csv.text {} corners.toList = Csv.join {}
      [["", "", ""], ["", "", "1"], ["", "", ""], ["", "", ""], ["", "2", ""]] := by
  have hrange : corners.usedRange? = some (.spanning ⟨1, 1⟩ ⟨4, 2⟩) := by rfl
  have hcells : corners.addresses = [⟨1, 2⟩, ⟨4, 1⟩] := by rfl
  obtain ⟨-, -, hwithin, -, htext⟩ := (usedRange?_smallest corners).2 _ hrange
  have hq : ∀ q : Range, q.contains ⟨1, 2⟩ = true → q.contains ⟨4, 1⟩ = true →
      ∀ b, (Range.spanning ⟨1, 1⟩ ⟨4, 2⟩).contains b = true → q.contains b = true := by
    intro q h1 h2
    refine hwithin q fun a ha => ?_
    rw [hcells] at ha
    simp only [List.mem_cons, List.not_mem_nil, or_false] at ha
    rcases ha with rfl | rfl
    · exact h1
    · exact h2
  refine ⟨hrange, fun q h1 h2 => ⟨hq q h1 h2 _ (by decide), hq q h1 h2 _ (by decide)⟩, ?_⟩
  rw [htext]
  rfl

end Store

end Spreadsheet
