import Spreadsheet.Proofs.Csv.Reading

/-! # Every field is accounted for

Main statement: `ofText_accounts`. A reading never ends early, the sheet holds the fields that have
more than blanks and a place within the limits, each in its own cell as it stands in the text, and
the size of the sheet and the number of dropped fields add up to the number of all fields with more
than blanks.

The number is kept step by step: fields are placed row by row, so a field never meets a cell that is
in use (`AheadOf`), and it adds one to the size or one to what is dropped (`total_place`,
`total_line`). -/

namespace Spreadsheet

theorem Store.size_set {s s' : Store} {a : Address} {t : String} (ht : t ≠ "")
    (ha : s.get? a = none) (h : s.set a t = .ok s') : s'.size = s.size + 1 := by
  have hmem : s.cells.contains a = false := by
    rw [Std.TreeMap.contains_eq_isSome_getElem?, ← Store.get?, ha]
    rfl
  unfold set at h
  split at h
  · cases h
  · rw [dif_neg ht] at h
    rw [← Except.ok.inj h, size, insert, Std.TreeMap.size_insert, hmem]
    rfl

namespace Csv

variable {d : Char} {i : Import} {row column : Nat} {field : List Char}

/-! ### Lines and fields -/

/-- The lines of a text: it is cut at every line feed, and a carriage return is taken from the end
of a line. -/
def cutLines (cs : List Char) : List (List Char) := (cs.splitOn '\n').map withoutReturn

/-- The fields with more than blanks in some lines, line by line. -/
def solidFields (d : Char) (ls : List (List Char)) : List (List Char) :=
  (ls.flatMap (·.splitOn d)).filter solid

theorem solid_iff : solid field = true ↔ ∃ c ∈ field, Text.isBlank c = false := by
  simp [solid]

theorem solidFields_cons (d : Char) (l : List Char) (ls : List (List Char)) :
    solidFields d (l :: ls) = (pieces d l).filter solid ++ solidFields d ls := by
  rw [solidFields, List.flatMap_cons, List.filter_append, pieces_eq_splitOn, solidFields]

/-- The empty lines at the end have no such field. -/
theorem solidFields_cutLines (d : Char) (cs : List Char) :
    solidFields d (cutLines cs) = solidFields d (linesOf cs) := by
  obtain ⟨n, hn⟩ := linesOf_append cs
  have hempty : (List.replicate n []).flatMap (·.splitOn d) = List.replicate n [] := by
    rw [List.flatMap_replicate, List.splitOn_nil, List.flatten_replicate_singleton]
  rw [cutLines, ← pieces_eq_splitOn, hn, solidFields, List.flatMap_append, List.filter_append,
    hempty, List.filter_replicate_of_neg (by simp [solid]), List.append_nil, solidFields]

theorem field?_eq_some_iff {cs : List Char} : field? d cs row column = some field ↔
    ∃ line, (cutLines cs)[row]? = some line ∧ (line.splitOn d)[column]? = some field ∧
      solid field = true := by
  rw [field?, pieces_eq_splitOn, ← cutLines, Option.bind_eq_some_iff]
  simp only [fieldOf?, pieces_eq_splitOn, Option.filter_eq_some_iff]

namespace Import

/-! ### No field is refused -/

/-- **A field within the limits is not refused.** -/
theorem tryPlace_eq (i : Import) (row column : Nat) (field : List Char) :
    i.tryPlace row column field = pure (i.place row column field) := by
  unfold tryPlace place
  split
  · rfl
  · cases Address.at? row column with
    | none => rfl
    | some a =>
      cases hin : i.store.limits.contains a with
      | false =>
        obtain ⟨e, he⟩ := Store.set_of_not_contains (t := String.ofList field) hin
        simp only [Option.filter, hin, he]
        rfl
      | true =>
        obtain ⟨s, hs⟩ := Store.exists_set hin (String.ofList field)
        simp only [Option.filter, hin, if_true, hs]
        rfl

theorem tryLine_eq (d : Char) (i : Import) (row : Nat) (line : List Char) :
    i.tryLine d row line = pure (i.line d row line) := by
  simp only [tryLine, tryPlace_eq, List.foldlM_pure, Import.line]

theorem tryOfText_eq (d : Char) (l : Limits) (cs : List Char) :
    tryOfText d l cs = .ok (ofText d l cs) := by
  simp only [tryOfText, tryLine_eq, List.foldlM_pure, ofText]
  rfl

/-! ### Counting fields -/

/-- The place lies behind all cells in use. -/
def AheadOf (row column : Nat) (i : Import) : Prop :=
  ∀ a t, i.store.get? a = some t → a.row.toNat < row ∨ a.row.toNat = row ∧ a.column.toNat < column

/-- The number of fields that are in the sheet or dropped. -/
def total (i : Import) : Nat := i.store.size + i.dropped

theorem AheadOf.place (h : i.AheadOf row column) (field : List Char) :
    (i.place row column field).AheadOf row (column + 1) := by
  intro a t ha
  have hseen := congrArg Prod.snd (seen_place a i row column field)
  split at hseen
  · next hrc => exact .inr ⟨hrc.1, by omega⟩
  · rw [seen, seen] at hseen
    rcases h a t (hseen.symm.trans ha) with hlt | ⟨hrow, hlt⟩
    · exact .inl hlt
    · exact .inr ⟨hrow, by omega⟩

/-- **A field with more than blanks counts one**, and any other none. -/
theorem total_place (h : i.AheadOf row column) (field : List Char) :
    (i.place row column field).total = i.total + ([field].filter solid).length := by
  unfold Import.place
  split
  · next hblank => simp [solid, hblank]
  · next hblank =>
    have hone : ([field].filter solid).length = 1 := by simp [solid, hblank]
    rw [hone]
    split
    · simp only [total]
      omega
    · next a hat =>
      obtain ⟨rfl, rfl⟩ := Address.at?_eq_some.mp hat
      split
      · next s hs =>
        have hne : String.ofList field ≠ "" := by
          rintro hempty
          rw [← String.toList_inj, String.toList_ofList] at hempty
          rw [hempty] at hblank
          exact hblank rfl
        have hnone : i.store.get? a = none := by
          by_contra hsome
          obtain ⟨t, ht⟩ := Option.ne_none_iff_exists'.mp hsome
          have := h a t ht
          omega
        simp only [total, Store.size_set hne hnone hs]
        omega
      · simp only [total]
        omega

/-- The fields of a line from a column on. -/
theorem total_fields (row : Nat) (fields : List (List Char)) (column : Nat) (i : Import)
    (h : i.AheadOf row column) :
    ((fields.zipIdx column).foldl (fun i p => i.place row p.2 p.1) i).total =
        i.total + (fields.filter solid).length ∧
      ((fields.zipIdx column).foldl (fun i p => i.place row p.2 p.1) i).AheadOf row
        (column + fields.length) := by
  induction fields generalizing column i with
  | nil => exact ⟨rfl, h⟩
  | cons field fields ih =>
    obtain ⟨htotal, hahead⟩ := ih (column + 1) _ (h.place field)
    rw [List.zipIdx_cons, List.foldl_cons]
    refine ⟨?_, ?_⟩
    · rw [htotal, total_place h, Nat.add_assoc, ← List.length_append, ← List.filter_append,
        List.singleton_append]
    · rw [List.length_cons, ← Nat.add_assoc, Nat.add_right_comm]
      exact hahead

/-- **A line counts its fields with more than blanks.** -/
theorem total_line (d : Char) (line : List Char) (h : i.AheadOf row 0) :
    (i.line d row line).total = i.total + ((pieces d line).filter solid).length ∧
      (i.line d row line).AheadOf (row + 1) 0 := by
  obtain ⟨htotal, hahead⟩ := total_fields row (pieces d line) 0 i h
  refine ⟨htotal, fun a t ha => ?_⟩
  have := hahead a t ha
  omega

/-- The lines of a text from a row on. -/
theorem total_lines (d : Char) (ls : List (List Char)) (row : Nat) (i : Import)
    (h : i.AheadOf row 0) :
    ((ls.zipIdx row).foldl (fun i p => i.line d p.2 p.1) i).total =
      i.total + (solidFields d ls).length := by
  induction ls generalizing row i with
  | nil => rfl
  | cons l ls ih =>
    obtain ⟨htotal, hahead⟩ := total_line d l h
    rw [List.zipIdx_cons, List.foldl_cons, ih (row + 1) _ hahead, htotal, solidFields_cons,
      List.length_append, Nat.add_assoc]

theorem total_ofText (d : Char) (l : Limits) (cs : List Char) :
    (ofText d l cs).total = (solidFields d (cutLines cs)).length := by
  have hempty : (⟨.empty l, 0⟩ : Import).AheadOf 0 0 := by
    intro a t ha
    rw [Store.get?_empty] at ha
    cases ha
  rw [ofText, total_lines d (linesOf cs) 0 _ hempty, solidFields_cutLines]
  exact Nat.zero_add _

/-- **An import loses and invents nothing.** It is never refused by the sheet. The sheet holds in a
cell within the limits the field for that cell, if the text has one with more than blanks, and
nothing else; and every field with more than blanks is in the sheet or counted as dropped. -/
theorem ofText_accounts (d : Char) (l : Limits) (cs : List Char) :
    tryOfText d l cs = .ok (ofText d l cs) ∧
    (ofText d l cs).store.limits = l ∧
    (∀ a t, (ofText d l cs).store.get? a = some t ↔
      l.contains a = true ∧ ∃ line field, (cutLines cs)[a.row.toNat]? = some line ∧
        (line.splitOn d)[a.column.toNat]? = some field ∧
        (∃ c ∈ field, Text.isBlank c = false) ∧ t = String.ofList field) ∧
    (ofText d l cs).store.size + (ofText d l cs).dropped =
      (solidFields d (cutLines cs)).length := by
  refine ⟨tryOfText_eq d l cs, limits_ofText d l cs, fun a t => ?_, total_ofText d l cs⟩
  rw [get?_ofText]
  constructor
  · intro h
    split at h
    · next hin =>
      obtain ⟨field, hfield, rfl⟩ := Option.map_eq_some_iff.mp h
      obtain ⟨line, hline, hpiece, hsolid⟩ := field?_eq_some_iff.mp hfield
      exact ⟨hin, line, field, hline, hpiece, solid_iff.mp hsolid, rfl⟩
    · cases h
  · rintro ⟨hin, line, field, hline, hpiece, hsolid, rfl⟩
    rw [if_pos hin, field?_eq_some_iff.mpr ⟨line, hline, hpiece, solid_iff.mpr hsolid⟩,
      Option.map_some]

end Import

end Csv

end Spreadsheet
