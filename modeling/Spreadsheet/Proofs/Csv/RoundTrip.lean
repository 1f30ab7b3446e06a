import Spreadsheet.Proofs.Csv.Grid
import Spreadsheet.Proofs.Csv.Reading

/-! # Writing a sheet and reading it again

Main statement: `reads_back_iff`. A sheet that is written and read again with the same delimiter and
limits is the same sheet exactly if the format carries all its texts (`Format.Carries`): nothing is
quoted, so a text must have more than blanks, no delimiter and no line feed, and it must not end
with a carriage return where the reader takes that for a part of the end of the line.

`field?_text` says what is read for each place of a written text whose fields have no delimiter and
no line feed: the field as it was written, except that the last field of a line that has no
carriage return of its own loses one. -/

namespace Spreadsheet

/-! ### The last row and column -/

namespace Store

variable {s s' : Store} {a : Address} {t : String}

/-- No cell in use lies in a column behind this one. -/
def InLastColumn (s : Store) (a : Address) : Prop :=
  ∀ b t, s.get? b = some t → b.column ≤ a.column

/-- No cell in use lies in a row below this one. -/
def InLastRow (s : Store) (a : Address) : Prop := ∀ b t, s.get? b = some t → b.row ≤ a.row

theorem inOrder (s : Store) : Csv.InOrder s.toList := Csv.inOrder_toList s.cells

theorem toList_inj : s.toList = s'.toList ↔ ∀ a, s.get? a = s'.get? a := by
  constructor
  · intro h a
    ext t
    rw [← mem_toList, h, mem_toList]
  · intro h
    refine s.inOrder.ext s'.inOrder fun ⟨a, t⟩ => ?_
    exact mem_toList.trans ((h a) ▸ mem_toList.symm)

theorem latest?_toList (s : Store) (a : Address) :
    Csv.latest? s.toList a.row.toNat a.column.toNat = s.get? a := by
  ext t
  exact s.inOrder.mem_iff.symm.trans mem_toList

theorem inLastColumn_iff (ha : s.get? a = some t) :
    s.InLastColumn a ↔ a.column.toNat + 1 = Csv.width s.toList := by
  have hlt := Csv.lt_width (mem_toList.mpr ha)
  constructor
  · intro h
    obtain ⟨b, u, hb, hwidth⟩ := Csv.exists_width (List.ne_nil_of_mem (mem_toList.mpr ha))
    have := UInt16.le_iff_toNat_le.mp (h b u (mem_toList.mp hb))
    omega
  · intro h b u hb
    have := Csv.lt_width (mem_toList.mpr hb)
    exact UInt16.le_iff_toNat_le.mpr (by omega)

theorem inLastRow_iff (ha : s.get? a = some t) :
    s.InLastRow a ↔ a.row.toNat + 1 = Csv.height s.toList := by
  have hlt := Csv.lt_height (mem_toList.mpr ha)
  constructor
  · intro h
    obtain ⟨b, u, hb, hheight⟩ := Csv.exists_height (List.ne_nil_of_mem (mem_toList.mpr ha))
    have := UInt32.le_iff_toNat_le.mp (h b u (mem_toList.mp hb))
    omega
  · intro h b u hb
    have := Csv.lt_height (mem_toList.mpr hb)
    exact UInt32.le_iff_toNat_le.mpr (by omega)

end Store

namespace Csv

variable {d : Char} {fs : List (List Char)} {cells : Cells}

/-! ### One line -/

theorem fieldOf?_intercalate {last : List Char} (h : ∀ field ∈ fs ++ [last], d ∉ field)
    (column : Nat) :
    fieldOf? d (List.intercalate [d] (fs ++ [last])) column =
      (fs ++ [last])[column]?.filter solid := by
  rw [fieldOf?, pieces_intercalate (by simp) h]

theorem filter_getElem?_concat_nil (fs : List (List Char)) (column : Nat) :
    (fs ++ [[]])[column]?.filter solid = fs[column]?.filter solid := by
  rcases Nat.lt_trichotomy column fs.length with h | rfl | h
  · rw [List.getElem?_append_left h]
  · simp [Option.filter, solid]
  · rw [List.getElem?_eq_none (by simp; omega), List.getElem?_eq_none (by omega)]

/-- **A carriage return that is taken from a line is taken from its last field**, or else it is the
delimiter in front of an empty one. -/
theorem fieldOf?_withoutReturn {last : List Char} (h : ∀ field ∈ fs ++ [last], d ∉ field)
    (column : Nat) :
    fieldOf? d (withoutReturn (List.intercalate [d] (fs ++ [last]))) column =
      (fs ++ [withoutReturn last])[column]?.filter solid := by
  by_cases hlast : last = []
  · subst hlast
    show _ = (fs ++ [[]])[column]?.filter solid
    -- the line ends with a delimiter, which is taken from it if it is a carriage return itself
    by_cases hd : d = '\r'
    · rw [filter_getElem?_concat_nil]
      rcases List.eq_nil_or_concat fs with rfl | ⟨gs, g, rfl⟩
      · exact fieldOf?_nil d column
      · have hline : List.intercalate [d] (gs ++ [g] ++ [[]]) =
            List.intercalate [d] (gs ++ [g]) ++ ['\r'] := by
          rw [List.intercalate_concat, List.intercalate_concat, hd]
          simp
        rw [List.concat_eq_append] at h ⊢
        rw [hline, withoutReturn_concat,
          fieldOf?_intercalate fun field hfield => h field (List.mem_append_left _ hfield)]
    · have hline : (List.intercalate [d] (fs ++ [[]])).getLast? ≠ some '\r' := by
        rw [List.intercalate_concat, List.append_nil]
        rcases List.eq_nil_or_concat fs with rfl | ⟨gs, g, rfl⟩
        · simp
        · simpa using hd
      rw [withoutReturn_of_ne hline, fieldOf?_intercalate h]
  · have hline : withoutReturn (List.intercalate [d] (fs ++ [last])) =
        List.intercalate [d] (fs ++ [withoutReturn last]) := by
      rw [List.intercalate_concat, List.intercalate_concat, withoutReturn_append _ hlast]
    rw [hline, fieldOf?_intercalate]
    intro field hfield
    rcases List.mem_append.mp hfield with hfield | hfield
    · exact h field (List.mem_append_left _ hfield)
    · rw [List.mem_singleton.mp hfield]
      exact fun hd => h last (by simp) (mem_of_mem_withoutReturn hd)

theorem map_range_succ {α : Type} (g : Nat → α) (n : Nat) :
    (List.range (n + 1)).map g = (List.range n).map g ++ [g n] := by
  rw [List.range_succ, List.map_append]
  rfl

theorem forall_notMem_range {x : Char} {g : Nat → List Char} (h : ∀ m, x ∉ g m) (n : Nat) :
    ∀ l ∈ (List.range n).map g ++ [g n], x ∉ l := by
  intro l hl
  rw [← map_range_succ] at hl
  obtain ⟨m, -, rfl⟩ := List.mem_map.mp hl
  exact h m

theorem getElem?_map_range_concat {α : Type} (g : Nat → α) (n m : Nat) (x : α) :
    ((List.range n).map g ++ [x])[m]? =
      if m ≤ n then some (if m = n then x else g m) else none := by
  rcases Nat.lt_trichotomy m n with h | rfl | h
  · rw [List.getElem?_append_left (by simpa using h), List.getElem?_map, List.getElem?_range h,
      if_pos (by omega), if_neg (by omega)]
    rfl
  · simp
  · rw [List.getElem?_eq_none (by simp; omega), if_neg (by omega)]

/-- **The fields of a line** that may lose a carriage return: only the last one is at stake. -/
theorem fieldOf?_line {v : Nat → List Char} (h : ∀ c, d ∉ v c) (bare : Prop) [Decidable bare]
    (w c : Nat) :
    fieldOf? d (if bare then withoutReturn (List.intercalate [d] ((List.range (w + 1)).map v))
        else List.intercalate [d] ((List.range (w + 1)).map v)) c =
      if c ≤ w then (some (if c = w ∧ bare then withoutReturn (v c) else v c)).filter solid
      else none := by
  have hd := forall_notMem_range h w
  rw [map_range_succ]
  by_cases hbare : bare
  · rw [if_pos hbare, fieldOf?_withoutReturn hd, getElem?_map_range_concat]
    simp only [hbare, and_true]
    split
    · split
      · next hc => rw [hc]
      · rfl
    · rfl
  · rw [if_neg hbare, fieldOf?_intercalate hd, getElem?_map_range_concat]
    simp only [hbare, and_false, if_false]
    split
    · split
      · next hc => rw [hc]
      · rfl
    · rfl

/-! ### All lines -/

theorem toList_join (f : Format) (rows : List (List String)) :
    (join f rows).toList = List.intercalate f.terminator.text.toList
      (rows.map fun row => List.intercalate [f.delimiter] (row.map String.toList)) := by
  rw [join, String.toList_intercalate, List.map_map]
  congr 2
  funext row
  rw [Function.comp_apply, String.toList_intercalate, Char.toString_eq_singleton,
    String.toList_singleton]

/-- The line of a row as it is written. -/
def line (d : Char) (cells : Cells) (row : Nat) : List Char :=
  List.intercalate [d] ((List.range (width cells)).map fun c => (valueAt cells row c).toList)

theorem toList_join_grid (f : Format) (h : InOrder cells) :
    (join f (grid cells)).toList = List.intercalate f.terminator.text.toList
      ((List.range (height cells)).map (line f.delimiter cells)) := by
  rw [toList_join, grid_eq h, List.map_map]
  congr 2
  funext row
  rw [Function.comp_apply, List.map_map]
  rfl

theorem newline_notMem_line (hd : d ≠ '\n') (h : ∀ r c, '\n' ∉ (valueAt cells r c).toList)
    (row : Nat) : '\n' ∉ line d cells row := by
  rw [line]
  cases width cells with
  | zero => simp
  | succ w =>
    rw [map_range_succ, List.intercalate_concat]
    intro hn
    rcases List.mem_append.mp hn with hn | hn
    · obtain ⟨field, hfield, hn⟩ := List.mem_flatMap.mp hn
      obtain ⟨c, -, rfl⟩ := List.mem_map.mp hfield
      rcases List.mem_append.mp hn with hn | hn
      · exact h row c hn
      · exact hd (List.mem_singleton.mp hn).symm
    · exact h row w hn

/-- **The lines that are read.** -/
theorem getElem?_lines (t : Terminator) {l : Nat → List Char} (h : ∀ r, '\n' ∉ l r) (n r : Nat) :
    ((pieces '\n' (List.intercalate t.text.toList ((List.range (n + 1)).map l))).map
        withoutReturn)[r]? =
      if r ≤ n then some (if t = .lf ∨ r = n then withoutReturn (l r) else l r) else none := by
  rw [map_range_succ, map_withoutReturn_pieces t (forall_notMem_range h n)]
  by_cases ht : t = .lf
  · rw [if_pos ht, List.map_map, getElem?_map_range_concat]
    simp only [ht, true_or, if_true]
    split
    · split
      · next hr => rw [hr]
      · rfl
    · rfl
  · rw [if_neg ht, getElem?_map_range_concat]
    simp only [ht, false_or]
    split
    · split
      · next hr => rw [hr]
      · rfl
    · rfl

/-- What is read for a place of a written text. -/
def readBack (t : Terminator) (cells : Cells) (row column : Nat) : List Char :=
  if column + 1 = width cells ∧ (t = .lf ∨ row + 1 = height cells) then
    withoutReturn (valueAt cells row column).toList
  else (valueAt cells row column).toList

theorem readBack_of_valueAt {t : Terminator} {row column : Nat}
    (h : valueAt cells row column = "") :
    readBack t cells row column = [] := by
  rw [readBack, h]
  split
  · rfl
  · rfl

theorem valueAt_of_le {row column : Nat} (h : height cells ≤ row ∨ width cells ≤ column) :
    valueAt cells row column = "" := by
  rw [valueAt, latest?_eq_none, Option.getD_none]
  rintro a t ha ⟨rfl, rfl⟩
  have := lt_height ha
  have := lt_width ha
  rcases h with h | h
  · omega
  · omega

/-- **What is read for a place**, if no field has a delimiter or a line feed. -/
theorem field?_text {f : Format} (hd : f.delimiter ≠ '\n') (hcells : InOrder cells)
    (h : ∀ r c, f.delimiter ∉ (valueAt cells r c).toList ∧ '\n' ∉ (valueAt cells r c).toList)
    (row column : Nat) :
    field? f.delimiter (text f cells).toList row column =
      (some (readBack f.terminator cells row column)).filter solid := by
  have hout : ∀ row column, height cells ≤ row ∨ width cells ≤ column →
      (some (readBack f.terminator cells row column)).filter solid = none := by
    intro row column hle
    rw [readBack_of_valueAt (valueAt_of_le hle)]
    rfl
  rw [text, hcells.inOrder_eq, field?, toList_join_grid f hcells]
  cases hheight : height cells with
  | zero =>
    rw [hout row column (.inl (by omega))]
    cases row with
    | zero => simp [withoutReturn]
    | succ row => simp
  | succ n =>
    rw [getElem?_lines _ (newline_notMem_line hd fun r c => (h r c).2)]
    rcases Nat.lt_or_ge n row with hrow | hrow
    · rw [if_neg (by omega), hout row column (.inl (by omega))]
      rfl
    · rw [if_pos hrow, Option.bind_some]
      cases hwidth : width cells with
      | zero =>
        rw [hout row column (.inr (by omega)), line, hwidth]
        simp [withoutReturn]
      | succ w =>
        rw [line, hwidth, fieldOf?_line (v := fun c => (valueAt cells row c).toList)
          (fun c => (h row c).1)]
        rcases Nat.lt_or_ge w column with hcolumn | hcolumn
        · rw [if_neg (by omega), hout row column (.inr (by omega))]
        · rw [if_pos hcolumn, readBack, hwidth, hheight]
          simp only [Nat.add_right_cancel_iff]

/-! ### Reading back -/

theorem valueAt_of_get? {s : Store} {a : Address} {t : String} (ha : s.get? a = some t) :
    valueAt s.toList a.row.toNat a.column.toNat = t := by
  rw [valueAt, s.latest?_toList, ha, Option.getD_some]

/-- A text that is written for a place is that of a cell, or empty. -/
theorem valueAt_cases (s : Store) (row column : Nat) : valueAt s.toList row column = "" ∨
    ∃ a t, s.get? a = some t ∧ a.row.toNat = row ∧ a.column.toNat = column := by
  cases h : latest? s.toList row column with
  | none => exact .inl (by rw [valueAt, h, Option.getD_none])
  | some t =>
    obtain ⟨a, ha, hplace⟩ := mem_of_latest? h
    exact .inr ⟨a, t, Store.mem_toList.mp ha, hplace⟩

/-- **The texts that a format carries**: more than blanks, no delimiter and no line feed, and no
carriage return at the end of a line that has none of its own. -/
structure Format.Carries (f : Format) (s : Store) (a : Address) (t : String) : Prop where
  notBlank : t.toList.all Text.isBlank = false
  noDelimiter : f.delimiter ∉ t.toList
  noNewline : '\n' ∉ t.toList
  noReturn : s.InLastColumn a → f.terminator = .lf ∨ s.InLastRow a → t.toList.getLast? ≠ some '\r'

theorem readBack_eq_iff {s : Store} {a : Address} {t : String} (f : Terminator)
    (ha : s.get? a = some t) :
    readBack f s.toList a.row.toNat a.column.toNat = t.toList ↔
      (s.InLastColumn a → f = .lf ∨ s.InLastRow a → t.toList.getLast? ≠ some '\r') := by
  rw [Store.inLastColumn_iff ha, Store.inLastRow_iff ha, readBack, valueAt_of_get? ha]
  split
  · next hbare =>
    constructor
    · intro heq _ _ hreturn
      exact withoutReturn_ne hreturn heq
    · intro h
      exact withoutReturn_of_ne (h hbare.1 hbare.2)
  · next hbare =>
    constructor
    · intro _ hcolumn hrow
      exact absurd ⟨hcolumn, hrow⟩ hbare
    · intro _
      rfl

theorem clean_of_forall {s : Store} {d : Char}
    (h : ∀ a t, s.get? a = some t → d ∉ t.toList ∧ '\n' ∉ t.toList) (row column : Nat) :
    d ∉ (valueAt s.toList row column).toList ∧ '\n' ∉ (valueAt s.toList row column).toList := by
  rcases valueAt_cases s row column with hempty | ⟨a, t, ha, rfl, rfl⟩
  · rw [hempty]
    exact ⟨List.not_mem_nil, List.not_mem_nil⟩
  · rw [valueAt_of_get? ha]
    exact h a t ha

/-- **A written sheet has its own texts in its fields and nothing else**, if the format carries
them. -/
theorem field?_text_eq_some {f : Format} {s : Store} (hd : f.delimiter ≠ '\n')
    (h : ∀ a t, s.get? a = some t → f.Carries s a t) {row column : Nat} {field : List Char} :
    field? f.delimiter (text f s.toList).toList row column = some field ↔
      ∃ a t, s.get? a = some t ∧ a.row.toNat = row ∧ a.column.toNat = column ∧
        t.toList = field := by
  have hclean := clean_of_forall fun a t ha => ⟨(h a t ha).noDelimiter, (h a t ha).noNewline⟩
  rw [field?_text hd s.inOrder hclean]
  rcases valueAt_cases s row column with hempty | ⟨a, t, ha, rfl, rfl⟩
  · rw [readBack_of_valueAt hempty]
    constructor
    · intro hfield
      obtain ⟨hnil, hsolid⟩ := Option.filter_eq_some_iff.mp hfield
      rw [← Option.some.inj hnil] at hsolid
      cases hsolid
    · rintro ⟨a, t, ha, rfl, rfl, rfl⟩
      rw [valueAt_of_get? ha] at hempty
      exact absurd hempty (s.text_ne a t ha)
  · rw [(readBack_eq_iff f.terminator ha).mpr (h a t ha).noReturn]
    have hsolid : (some t.toList).filter solid = some t.toList :=
      Option.filter_eq_some_iff.mpr ⟨rfl, by simp [solid, (h a t ha).notBlank]⟩
    rw [hsolid, Option.some.injEq]
    constructor
    · intro hfield
      exact ⟨a, t, ha, rfl, rfl, hfield⟩
    · rintro ⟨b, u, hb, hrow, hcolumn, hfield⟩
      rw [Address.toNat_inj.mp ⟨hrow, hcolumn⟩, ha] at hb
      rw [Option.some.inj hb, hfield]

/-- What is read from the text of a sheet, with the delimiter of the text and the limits of the
sheet. -/
def Format.reread (f : Format) (s : Store) : Import :=
  .ofText f.delimiter s.limits (text f s.toList).toList

section

variable {f : Format} {s : Store}

/-- A sheet that is read back has only texts that the format carries. -/
theorem carries_of_reread (hd : f.delimiter ≠ '\n') (h : (f.reread s).store.toList = s.toList)
    {a : Address} {t : String} (ha : s.get? a = some t) : f.Carries s a t := by
  have hread : ∀ a t, s.get? a = some t →
      field? f.delimiter (text f s.toList).toList a.row.toNat a.column.toNat = some t.toList := by
    intro a t ha
    have hget := (Store.toList_inj.mp h a).trans ha
    rw [Format.reread, Import.get?_ofText, if_pos (s.inside a t ha)] at hget
    obtain ⟨field, hfield, rfl⟩ := Option.map_eq_some_iff.mp hget
    rw [hfield, String.toList_ofList]
  -- a text that is read has no delimiter and no line feed, so the sheet was written without any
  have hclean := clean_of_forall fun a t ha => (field?_eq_some (hread a t ha)).2
  obtain ⟨hsolid, hdelimiter, hnewline⟩ := field?_eq_some (hread a t ha)
  have hback := hread a t ha
  rw [field?_text hd s.inOrder hclean] at hback
  have heq := Option.some.inj (Option.filter_eq_some_iff.mp hback).1
  exact ⟨by simpa [solid] using hsolid, hdelimiter, hnewline,
    (readBack_eq_iff f.terminator ha).mp heq⟩

theorem get?_reread (hd : f.delimiter ≠ '\n') (h : ∀ a t, s.get? a = some t → f.Carries s a t)
    (a : Address) : (f.reread s).store.get? a = s.get? a := by
  rw [Format.reread, Import.get?_ofText]
  cases ha : s.get? a with
  | some t =>
    rw [if_pos (s.inside a t ha), (field?_text_eq_some hd h).mpr ⟨a, t, ha, rfl, rfl, rfl⟩,
      Option.map_some, String.ofList_toList]
  | none =>
    have hnone : field? f.delimiter (text f s.toList).toList a.row.toNat a.column.toNat =
        none := by
      by_contra hne
      obtain ⟨field, hfield⟩ := Option.ne_none_iff_exists'.mp hne
      obtain ⟨b, t, hb, hrow, hcolumn, -⟩ := (field?_text_eq_some hd h).mp hfield
      rw [Address.toNat_inj.mp ⟨hrow, hcolumn⟩, ha] at hb
      cases hb
    rw [hnone]
    split
    · rfl
    · rfl

theorem dropped_reread (hd : f.delimiter ≠ '\n')
    (h : ∀ a t, s.get? a = some t → f.Carries s a t) : (f.reread s).dropped = 0 := by
  refine Import.dropped_ofText fun row column field hfield => ?_
  obtain ⟨a, t, ha, hrow, hcolumn, -⟩ := (field?_text_eq_some hd h).mp hfield
  exact ⟨a, Address.at?_eq_some.mpr ⟨hrow, hcolumn⟩, s.inside a t ha⟩

end

/-- **A sheet is read back as it is exactly if the format carries all its texts.** -/
theorem reads_back_iff (f : Format) (hd : f.delimiter ≠ '\n') (s : Store) :
    ((f.reread s).store.limits = s.limits ∧ (f.reread s).store.toList = s.toList ∧
      (f.reread s).dropped = 0) ↔
    ∀ a t, s.get? a = some t → f.Carries s a t := by
  constructor
  · rintro ⟨-, hcells, -⟩ a t ha
    exact carries_of_reread hd hcells ha
  · intro h
    have hlimits : (f.reread s).store.limits = s.limits := Import.limits_ofText _ _ _
    exact ⟨hlimits, Store.toList_inj.mpr (get?_reread hd h), dropped_reread hd h⟩

/-- Three texts; the one at the end of the first line ends with a carriage return. -/
def returning : Store :=
  (((Store.empty ⟨2, 2⟩).insert ⟨0, 0⟩ "a" (by decide) (by decide)).insert ⟨0, 1⟩ "b\r" (by decide)
    (by decide)).insert ⟨1, 0⟩ "c" (by decide) (by decide)

theorem returning_get?_eq_some {a : Address} {t : String} (h : returning.get? a = some t) :
    a = ⟨1, 0⟩ ∧ t = "c" ∨ a = ⟨0, 1⟩ ∧ t = "b\r" ∨ a = ⟨0, 0⟩ ∧ t = "a" := by
  rw [returning, Store.get?_insert, Store.get?_insert, Store.get?_insert, Store.get?_empty] at h
  split at h
  · next ha => exact .inl ⟨ha.symm, (Option.some.inj h).symm⟩
  · split at h
    · next ha => exact .inr (.inl ⟨ha.symm, (Option.some.inj h).symm⟩)
    · split at h
      · next ha => exact .inr (.inr ⟨ha.symm, (Option.some.inj h).symm⟩)
      · cases h

/-- The carriage return is kept where the line has another behind it, and lost where it has not. -/
theorem returning_reads_back :
    ('\t' ≠ '\n') ∧
    ((Format.reread ⟨'\t', .crlf⟩ returning).store.limits = returning.limits ∧
      (Format.reread ⟨'\t', .crlf⟩ returning).store.toList = returning.toList ∧
      (Format.reread ⟨'\t', .crlf⟩ returning).dropped = 0) ∧
    ¬((Format.reread ⟨'\t', .lf⟩ returning).store.limits = returning.limits ∧
      (Format.reread ⟨'\t', .lf⟩ returning).store.toList = returning.toList ∧
      (Format.reread ⟨'\t', .lf⟩ returning).dropped = 0) := by
  have hb : returning.get? ⟨0, 1⟩ = some "b\r" := by
    rw [returning, Store.get?_insert, if_neg (by decide), Store.get?_insert, if_pos rfl]
  have hc : returning.get? ⟨1, 0⟩ = some "c" := by
    rw [returning, Store.get?_insert, if_pos rfl]
  refine ⟨by decide, (reads_back_iff ⟨'\t', .crlf⟩ (by decide) returning).mpr fun a t ha => ?_,
    fun h => ?_⟩
  · rcases returning_get?_eq_some ha with ⟨rfl, rfl⟩ | ⟨rfl, rfl⟩ | ⟨rfl, rfl⟩
    · exact ⟨by decide, by decide, by decide, fun _ _ => by decide⟩
    · refine ⟨by decide, by decide, by decide, fun _ hrow => ?_⟩
      rcases hrow with hlf | hrow
      · cases hlf
      · exact absurd (hrow _ _ hc) (by decide)
    · exact ⟨by decide, by decide, by decide, fun _ _ => by decide⟩
  · have hcarries := (reads_back_iff ⟨'\t', .lf⟩ (by decide) returning).mp h _ _ hb
    refine hcarries.noReturn (fun a t ha => ?_) (.inl rfl) (by decide)
    rcases returning_get?_eq_some ha with ⟨rfl, -⟩ | ⟨rfl, -⟩ | ⟨rfl, -⟩ <;> decide

end Csv

end Spreadsheet
