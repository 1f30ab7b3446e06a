import Spreadsheet.Csv.Text
import Spreadsheet.Store
import Mathlib.Data.List.Basic

/-! # The grid that is written

The grid is made by walking over its places and over the cells in order at the same time. It is
what looking up each place on its own gives: `grid_eq`. The walk is right because the cells that are
left at a place are those from that place on (`onward`): `fields_eq` for a line, `lines_eq` for all.

`height` and `width` reach just behind the last row and the last column in use (`lt_height`,
`exists_height`, `lt_width`, `exists_width`). -/

namespace Spreadsheet.Csv

variable {cells : Cells} {a : Address} {t : String} {k r c n : Nat}

/-! ### Cells in order -/

/-- The cells stand row by row, each at most once. -/
def InOrder (cells : Cells) : Prop := cells.Pairwise fun p q => p.1.index < q.1.index

theorem index_lt {b : Address} (h : compare a b = .lt) : a.index < b.index :=
  Nat.compare_eq_lt.mp h

theorem inOrder_toList (map : Std.TreeMap Address String) : InOrder map.toList :=
  Std.TreeMap.ordered_keys_toList.imp index_lt

theorem InOrder.unique {p q : Address × String} (h : InOrder cells) (hp : p ∈ cells)
    (hq : q ∈ cells) (hpq : p.1 = q.1) : p = q := by
  induction cells with
  | nil => cases hp
  | cons e cells ih =>
    obtain ⟨hlt, h⟩ := List.pairwise_cons.mp h
    rcases List.mem_cons.mp hp with rfl | hp'
    · rcases List.mem_cons.mp hq with rfl | hq'
      · rfl
      · exact absurd (hlt q hq') (by rw [hpq]; omega)
    · rcases List.mem_cons.mp hq with rfl | hq'
      · exact absurd (hlt p hp') (by rw [hpq]; omega)
      · exact ih h hp' hq'

/-- Cells in order are known by what they are. -/
theorem InOrder.ext {cells' : Cells} (h : InOrder cells) (h' : InOrder cells')
    (hmem : ∀ p, p ∈ cells ↔ p ∈ cells') : cells = cells' := by
  have hne : ∀ {cells : Cells}, InOrder cells → cells.Nodup := fun h =>
    h.imp fun hlt heq => by rw [heq] at hlt; omega
  refine ((List.perm_ext_iff_of_nodup (hne h) (hne h')).mpr hmem).eq_of_pairwise ?_ h h'
  intro p q _ _ hlt hlt'
  omega

/-! ### Looking up a place -/

/-- The text that some cells have for a place, the last one if there are several. -/
def latest? (cells : Cells) (row column : Nat) : Option String :=
  (cells.reverse.find? fun p => p.1.row.toNat = row ∧ p.1.column.toNat = column).map Prod.snd

/-- The text that is written for a place; the empty one if there is none. -/
def valueAt (cells : Cells) (row column : Nat) : String := (latest? cells row column).getD ""

theorem latest?_cons (p : Address × String) (cells : Cells) (row column : Nat) :
    latest? (p :: cells) row column = (latest? cells row column).or
      (if p.1.row.toNat = row ∧ p.1.column.toNat = column then some p.2 else none) := by
  unfold latest?
  rw [List.reverse_cons, List.find?_append, Option.map_or]
  congr 1
  by_cases hp : p.1.row.toNat = row ∧ p.1.column.toNat = column
  · simp [hp]
  · simp [hp]

theorem mem_of_latest? (h : latest? cells r c = some t) :
    ∃ a, (a, t) ∈ cells ∧ a.row.toNat = r ∧ a.column.toNat = c := by
  obtain ⟨⟨a, t⟩, hfind, rfl⟩ := Option.map_eq_some_iff.mp h
  refine ⟨a, List.mem_reverse.mp (List.mem_of_find?_eq_some hfind), ?_⟩
  simpa using List.find?_some hfind

theorem latest?_eq_none
    (h : ∀ a t, (a, t) ∈ cells → ¬(a.row.toNat = r ∧ a.column.toNat = c)) :
    latest? cells r c = none := by
  cases hl : latest? cells r c with
  | none => rfl
  | some t =>
    obtain ⟨a, ha, hrc⟩ := mem_of_latest? hl
    exact absurd hrc (h a t ha)

/-- **Where no cell is written twice, looking up a place finds the cell there.** -/
theorem InOrder.mem_iff (h : InOrder cells) :
    (a, t) ∈ cells ↔ latest? cells a.row.toNat a.column.toNat = some t := by
  constructor
  · intro ha
    cases hl : latest? cells a.row.toNat a.column.toNat with
    | none =>
      have := List.find?_eq_none.mp (Option.map_eq_none_iff.mp hl) (a, t) (List.mem_reverse.mpr ha)
      simp at this
    | some u =>
      obtain ⟨b, hb, hplace⟩ := mem_of_latest? hl
      have := h.unique hb ha (Address.toNat_inj.mp hplace)
      rw [(Prod.mk.inj this).2]
  · intro hl
    obtain ⟨b, hb, hplace⟩ := mem_of_latest? hl
    rwa [← Address.toNat_inj.mp hplace]

theorem getElem?_foldl_insert (cells : Cells) (map : Std.TreeMap Address String) (a : Address) :
    (cells.foldl (fun map p => map.insert p.1 p.2) map)[a]? =
      (latest? cells a.row.toNat a.column.toNat).or map[a]? := by
  induction cells generalizing map with
  | nil => rfl
  | cons p cells ih =>
    rw [List.foldl_cons, ih, latest?_cons, Std.TreeMap.getElem?_insert, Option.or_assoc]
    congr 1
    by_cases hp : p.1 = a
    · simp [hp]
    · simp [hp, Address.toNat_inj]

theorem mem_inOrder :
    (a, t) ∈ inOrder cells ↔ latest? cells a.row.toNat a.column.toNat = some t := by
  rw [inOrder, Std.TreeMap.mem_toList_iff_getElem?_eq_some, getElem?_foldl_insert]
  simp

/-- Cells in order are put in order as they are. -/
theorem InOrder.inOrder_eq (h : InOrder cells) : inOrder cells = cells :=
  (inOrder_toList _).ext h fun ⟨_, _⟩ => mem_inOrder.trans h.mem_iff.symm

/-! ### The cells from a place on -/

/-- The cells from a place on. -/
def onward (cells : Cells) (k : Nat) : Cells := cells.filter fun p => k ≤ p.1.index

theorem onward_zero (cells : Cells) : onward cells 0 = cells :=
  List.filter_eq_self.mpr fun p _ => by simp

theorem mem_onward {p : Address × String} : p ∈ onward cells k ↔ p ∈ cells ∧ k ≤ p.1.index := by
  rw [onward, List.mem_filter, decide_eq_true_eq]

theorem onward_congr {k' : Nat} (h : ∀ p ∈ cells, k ≤ p.1.index ↔ k' ≤ p.1.index) :
    onward cells k = onward cells k' :=
  List.filter_congr fun p hp => decide_eq_decide.mpr (h p hp)

/-- The first cell from its own place on is the cell itself. -/
theorem onward_index (h : InOrder cells) (ha : (a, t) ∈ cells) :
    onward cells a.index = (a, t) :: onward cells (a.index + 1) := by
  induction cells with
  | nil => cases ha
  | cons e cells ih =>
    obtain ⟨hlt, h⟩ := List.pairwise_cons.mp h
    unfold onward at ih ⊢
    rcases List.mem_cons.mp ha with rfl | ha
    · rw [List.filter_cons_of_pos (by simp), List.filter_cons_of_neg (by simp)]
      congr 1
      refine List.filter_congr fun p hp => decide_eq_decide.mpr ?_
      have : a.index < p.1.index := hlt p hp
      omega
    · have : e.1.index < a.index := hlt _ ha
      rw [List.filter_cons_of_neg (by simpa using this),
        List.filter_cons_of_neg (by simp only [decide_eq_true_eq]; omega), ih h ha]

/-! ### The walk -/

theorem index_eq_iff (hc : c < UInt16.size) :
    a.index = UInt16.size * r + c ↔ a.row.toNat = r ∧ a.column.toNat = c := by
  have := a.column.toNat_lt_size
  simp only [Address.index, UInt16.size] at *
  omega

/-- **One line.** -/
theorem fields_eq (h : InOrder cells) (r : Nat) (hc : c + n ≤ UInt16.size) (found : Array String) :
    fields r n c (onward cells (UInt16.size * r + c)) found =
      (found ++ ((List.range' c n).map (valueAt cells r)).toArray,
        onward cells (UInt16.size * r + (c + n))) := by
  induction n generalizing c found with
  | zero => simp [fields]
  | succ n ih =>
    have hnext := ih (c := c + 1) (by omega)
    have hplace : UInt16.size * r + (c + 1) = UInt16.size * r + c + 1 := by omega
    have hend : c + 1 + n = c + (n + 1) := by omega
    rw [hend] at hnext
    rw [List.range'_succ, List.map_cons]
    -- the next cell that is left lies here, or none does and it lies further on
    by_cases hcell : ∃ p ∈ cells, p.1.row.toNat = r ∧ p.1.column.toNat = c
    · obtain ⟨⟨a, t⟩, ha, hrc⟩ := hcell
      have hidx : a.index = UInt16.size * r + c := (index_eq_iff (by omega)).mpr hrc
      have hvalue : valueAt cells r c = t := by
        rw [← hrc.1, ← hrc.2, valueAt, h.mem_iff.mp ha, Option.getD_some]
      rw [← hidx, onward_index h ha, hidx, ← hplace, fields, if_pos hrc, hnext, hvalue]
      simp
    · have hvalue : valueAt cells r c = "" := by
        rw [valueAt, latest?_eq_none fun a t ha hrc => hcell ⟨(a, t), ha, hrc⟩, Option.getD_none]
      have hskip : onward cells (UInt16.size * r + c) =
          onward cells (UInt16.size * r + (c + 1)) := by
        refine onward_congr fun p hp => ?_
        have : p.1.index ≠ UInt16.size * r + c := fun hidx =>
          hcell ⟨p, hp, (index_eq_iff (by omega)).mp hidx⟩
        omega
      have hstep : fields r (n + 1) c (onward cells (UInt16.size * r + (c + 1))) found =
          fields r n (c + 1) (onward cells (UInt16.size * r + (c + 1))) (found.push "") := by
        rcases hrest : onward cells (UInt16.size * r + (c + 1)) with _ | ⟨⟨a, t⟩, rest⟩
        · rfl
        · have ha : (a, t) ∈ onward cells (UInt16.size * r + (c + 1)) := by
            rw [hrest]
            exact List.mem_cons_self
          rw [fields, if_neg fun hrc => hcell ⟨(a, t), (mem_onward.mp ha).1, hrc⟩]
      rw [hskip, hstep, hnext, hvalue]
      simp

/-- **All lines.** -/
theorem lines_eq (h : InOrder cells) {w : Nat} (hw : ∀ p ∈ cells, p.1.column.toNat < w)
    (hsize : w ≤ UInt16.size) (n r : Nat) (found : Array (List String)) :
    lines w n r (onward cells (UInt16.size * r)) found =
      found ++ ((List.range' r n).map fun r => (List.range w).map (valueAt cells r)).toArray := by
  induction n generalizing r found with
  | zero => simp [lines]
  | succ n ih =>
    have hline := fields_eq (c := 0) (n := w) h r (by omega) #[]
    have hrest : onward cells (UInt16.size * r + (0 + w)) =
        onward cells (UInt16.size * (r + 1)) := by
      refine onward_congr fun p hp => ?_
      have := hw p hp
      simp only [Address.index, UInt16.size] at *
      omega
    rw [Nat.add_zero, hrest] at hline
    rw [lines, hline]
    simp only
    rw [ih, List.range'_succ, List.map_cons, ← List.range_eq_range']
    simp

/-! ### Height and width -/

theorem foldl_max {α : Type} (g : α → Nat) (xs : List α) (n : Nat) :
    n ≤ xs.foldl (fun n x => max n (g x)) n ∧
      (∀ x ∈ xs, g x ≤ xs.foldl (fun n x => max n (g x)) n) ∧
      (xs.foldl (fun n x => max n (g x)) n = n ∨
        ∃ x ∈ xs, g x = xs.foldl (fun n x => max n (g x)) n) := by
  induction xs generalizing n with
  | nil => simp
  | cons x xs ih =>
    obtain ⟨hle, hall, hex⟩ := ih (max n (g x))
    rw [List.foldl_cons]
    refine ⟨by omega, fun y hy => ?_, ?_⟩
    · rcases List.mem_cons.mp hy with rfl | hy
      · omega
      · exact hall y hy
    · rcases hex with hex | ⟨y, hy, hex⟩
      · rcases Nat.le_total n (g x) with hn | hn
        · exact .inr ⟨x, List.mem_cons_self, by omega⟩
        · exact .inl (by omega)
      · exact .inr ⟨y, List.mem_cons_of_mem _ hy, hex⟩

theorem lt_height (ha : (a, t) ∈ cells) : a.row.toNat < height cells :=
  (foldl_max (fun p : Address × String => p.1.row.toNat + 1) cells 0).2.1 (a, t) ha

theorem lt_width (ha : (a, t) ∈ cells) : a.column.toNat < width cells :=
  (foldl_max (fun p : Address × String => p.1.column.toNat + 1) cells 0).2.1 (a, t) ha

theorem exists_height (h : cells ≠ []) :
    ∃ a t, (a, t) ∈ cells ∧ a.row.toNat + 1 = height cells := by
  rcases (foldl_max (fun p : Address × String => p.1.row.toNat + 1) cells 0).2.2 with h0 | hex
  · obtain ⟨⟨a, t⟩, ha⟩ := List.exists_mem_of_ne_nil _ h
    have := lt_height ha
    rw [height, h0] at this
    omega
  · obtain ⟨⟨a, t⟩, ha, hheight⟩ := hex
    exact ⟨a, t, ha, hheight⟩

theorem exists_width (h : cells ≠ []) :
    ∃ a t, (a, t) ∈ cells ∧ a.column.toNat + 1 = width cells := by
  rcases (foldl_max (fun p : Address × String => p.1.column.toNat + 1) cells 0).2.2 with h0 | hex
  · obtain ⟨⟨a, t⟩, ha⟩ := List.exists_mem_of_ne_nil _ h
    have := lt_width ha
    rw [width, h0] at this
    omega
  · obtain ⟨⟨a, t⟩, ha, hwidth⟩ := hex
    exact ⟨a, t, ha, hwidth⟩

theorem width_le (cells : Cells) : width cells ≤ UInt16.size := by
  by_cases h : cells = []
  · rw [h]
    exact Nat.zero_le _
  · obtain ⟨a, -, -, hwidth⟩ := exists_width h
    have := a.column.toNat_lt_size
    omega

/-- **The grid is what looking up each place gives.** -/
theorem grid_eq (h : InOrder cells) :
    grid cells = (List.range (height cells)).map fun r =>
      (List.range (width cells)).map (valueAt cells r) := by
  have hlines := lines_eq h (fun p hp => lt_width hp) (width_le cells) (height cells) 0 #[]
  rw [Nat.mul_zero, onward_zero] at hlines
  rw [grid, hlines, ← List.range_eq_range']
  simp

end Spreadsheet.Csv
