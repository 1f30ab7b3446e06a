import Spreadsheet.Proofs.Csv.Pieces

/-! # What is read from a text

`field?` is the field that a text has for a place in the sheet, found by looking it up; fields of
blanks are none.

* `get?_ofText`: the sheet read from a text holds in every cell within its limits the field for that
  cell, and nothing in the others.
* `dropped_ofText`: nothing is dropped if every field has its place within the limits.
* `limits_ofText`: the sheet has the limits that were asked for.

A walk over numbered entries in which each entry changes its own place only leaves in a place what
the entry with that number puts there (`foldl_zipIdx`). It is used twice, for the fields of a line
and for the lines of a text. -/

namespace Spreadsheet

theorem Address.at?_toNat (a : Address) : Address.at? a.row.toNat a.column.toNat = some a := by
  unfold Address.at?
  rw [if_pos ⟨a.row.toNat_lt_size, a.column.toNat_lt_size⟩, UInt32.ofNat_toNat, UInt16.ofNat_toNat]

theorem Address.at?_eq_some {row column : Nat} {a : Address} :
    Address.at? row column = some a ↔ a.row.toNat = row ∧ a.column.toNat = column := by
  constructor
  · intro h
    unfold Address.at? at h
    split at h
    · next hlt =>
      rw [← Option.some.inj h]
      exact ⟨UInt32.toNat_ofNat_of_lt' hlt.1, UInt16.toNat_ofNat_of_lt' hlt.2⟩
    · cases h
  · rintro ⟨rfl, rfl⟩
    exact a.at?_toNat

namespace Csv

variable {d : Char} {cs : List Char} {a : Address} {l : Limits}

/-! ### Fields -/

/-- A field with more than blanks. -/
def solid (field : List Char) : Bool := !field.all Text.isBlank

/-- The field of a line in a column; a field of blanks is none. -/
def fieldOf? (d : Char) (line : List Char) (column : Nat) : Option (List Char) :=
  (pieces d line)[column]?.filter solid

/-- **The field of a text for a row and a column**: the text is cut at every line feed, a carriage
return is taken from the end of the line, and the line is cut at every delimiter. -/
def field? (d : Char) (cs : List Char) (row column : Nat) : Option (List Char) :=
  ((pieces '\n' cs).map withoutReturn)[row]?.bind fun line => fieldOf? d line column

@[simp] theorem fieldOf?_nil (d : Char) (column : Nat) : fieldOf? d [] column = none := by
  rw [fieldOf?, pieces_nil]
  cases column with
  | zero => rfl
  | succ column => rfl

/-- Empty lines at the end have no fields. -/
theorem field?_eq_linesOf (d : Char) (cs : List Char) (row column : Nat) :
    field? d cs row column = (linesOf cs)[row]?.bind fun line => fieldOf? d line column := by
  obtain ⟨n, hn⟩ := linesOf_append cs
  rw [field?, hn]
  rcases Nat.lt_or_ge row (linesOf cs).length with hr | hr
  · rw [List.getElem?_append_left hr]
  · rw [List.getElem?_append_right hr, List.getElem?_eq_none hr, List.getElem?_replicate]
    split
    · exact fieldOf?_nil d column
    · rfl

/-- **What a field cannot be**: a delimiter and a line feed end it, and it has more than blanks. -/
theorem field?_eq_some {row column : Nat} {field : List Char}
    (h : field? d cs row column = some field) :
    solid field = true ∧ d ∉ field ∧ '\n' ∉ field := by
  obtain ⟨line, hline, hfield⟩ := Option.bind_eq_some_iff.mp h
  obtain ⟨piece, hpiece, rfl⟩ := List.mem_map.mp (List.mem_of_getElem? hline)
  obtain ⟨hfield, hsolid⟩ := Option.filter_eq_some_iff.mp hfield
  have hmem := List.mem_of_getElem? hfield
  refine ⟨hsolid, notMem_piece hmem, fun hn => ?_⟩
  exact notMem_piece hpiece (mem_of_mem_withoutReturn (mem_of_mem_piece hmem hn))

/-! ### Walks over numbered entries -/

/-- **A walk that changes what is seen at one entry only.** -/
theorem foldl_zipIdx {α β δ : Type} {f : β → α × Nat → β} (view : β → δ) (change : α → δ → δ)
    {n : Nat}
    (h : ∀ b x m, view (f b (x, m)) = if m = n then change x (view b) else view b)
    (xs : List α) (k : Nat) (b : β) :
    view ((xs.zipIdx k).foldl f b) =
      if k ≤ n then (xs[n - k]?).elim (view b) (change · (view b)) else view b := by
  induction xs generalizing k b with
  | nil => simp
  | cons x xs ih =>
    rw [List.zipIdx_cons, List.foldl_cons, ih, h]
    rcases Nat.lt_trichotomy k n with hk | rfl | hk
    · obtain ⟨m, rfl⟩ := Nat.exists_eq_add_of_lt hk
      have hm : k + m + 1 - k = m + 1 := by omega
      have hm' : k + m + 1 - (k + 1) = m := by omega
      rw [if_pos (by omega), if_neg (by omega), if_pos (by omega), hm, hm', List.getElem?_cons_succ]
    · rw [if_neg (by omega), if_pos rfl, if_pos (Nat.le_refl k), Nat.sub_self,
        List.getElem?_cons_zero]
      rfl
    · rw [if_neg (by omega), if_neg (by omega), if_neg (by omega)]

/-! ### Placing fields -/

namespace Import

/-- What matters of an import for a cell: the limits and the text in the cell. -/
def seen (a : Address) (i : Import) : Limits × Option String := (i.store.limits, i.store.get? a)

/-- What a field for a cell makes of what is seen of it. -/
def change (a : Address) (field : Option (List Char)) (p : Limits × Option String) :
    Limits × Option String :=
  (p.1, if p.1.contains a then (field.map String.ofList).or p.2 else p.2)

@[simp] theorem change_none (a : Address) (p : Limits × Option String) : change a none p = p := by
  simp [change]

/-- **A field changes the cell in its place only**, if the cell lies within the limits. -/
theorem seen_place (a : Address) (i : Import) (row column : Nat) (field : List Char) :
    seen a (i.place row column field) =
      if a.row.toNat = row ∧ a.column.toNat = column then
        change a ((some field).filter solid) (seen a i)
      else seen a i := by
  unfold place
  split
  · next hblank => simp [Option.filter, solid, hblank]
  · next hblank =>
    have hfilter : (some field).filter solid = some field := by
      simp [Option.filter, solid, hblank]
    rw [hfilter]
    split
    · next hat =>
      rw [if_neg]
      · rfl
      · rintro ⟨rfl, rfl⟩
        rw [a.at?_toNat] at hat
        cases hat
    · next b hat =>
      obtain ⟨rfl, rfl⟩ := Address.at?_eq_some.mp hat
      simp only [Address.toNat_inj]
      cases hin : i.store.limits.contains b with
      | false =>
        obtain ⟨e, he⟩ := Store.set_of_not_contains (t := String.ofList field) hin
        simp only [he, seen]
        split
        · next hab => simp [change, hab, hin]
        · rfl
      | true =>
        have hne : String.ofList field ≠ "" := by
          intro h
          rw [← String.toList_inj, String.toList_ofList] at h
          rw [h] at hblank
          exact hblank rfl
        obtain ⟨s, hs⟩ := Store.exists_set hin (String.ofList field)
        simp only [hs, seen, Store.limits_set hs, Store.get?_set hs, if_neg hne]
        split
        · next hba => simp [change, ← hba, hin]
        · next hba => rw [if_neg (Ne.symm hba)]

/-- **A line changes the cells of its row only**, each to the field in its column. -/
theorem seen_line (a : Address) (i : Import) (row : Nat) (line : List Char) :
    seen a (i.line d row line) =
      if row = a.row.toNat then change a (fieldOf? d line a.column.toNat) (seen a i)
      else seen a i := by
  unfold Import.line
  split
  · next hrow =>
    rw [foldl_zipIdx (seen a) (fun field => change a ((some field).filter solid))
      (n := a.column.toNat)]
    · rw [if_pos (Nat.zero_le _), Nat.sub_zero, fieldOf?]
      cases (pieces d line)[a.column.toNat]? with
      | none => simp
      | some field => rfl
    · intro i field column
      rw [seen_place]
      simp only [hrow, true_and, eq_comm]
  · next hrow =>
    refine List.foldlRecOn (motive := fun j => seen a j = seen a i) _ _ rfl fun j hj p _ => ?_
    rw [seen_place, if_neg fun h => hrow h.1.symm, hj]

theorem seen_empty (a : Address) (l : Limits) : seen a ⟨.empty l, 0⟩ = (l, none) := by
  show (l, (Store.empty l).get? a) = (l, none)
  rw [Store.get?_empty]

theorem seen_ofText (d : Char) (l : Limits) (cs : List Char) (a : Address) :
    seen a (ofText d l cs) = change a (field? d cs a.row.toNat a.column.toNat) (l, none) := by
  rw [field?_eq_linesOf, ofText, foldl_zipIdx (seen a)
    (fun line => change a (fieldOf? d line a.column.toNat)) (n := a.row.toNat)
    fun i line row => seen_line a i row line]
  rw [if_pos (Nat.zero_le _), Nat.sub_zero, seen_empty]
  cases (linesOf cs)[a.row.toNat]? with
  | none => simp
  | some line => rfl

/-! ### The sheet that is read -/

/-- **The sheet has the limits asked for.** -/
theorem limits_ofText (d : Char) (l : Limits) (cs : List Char) :
    (ofText d l cs).store.limits = l :=
  congrArg Prod.fst (seen_ofText d l cs ⟨0, 0⟩)

/-- **A cell within the limits holds the field for it**, and no other cell holds anything. -/
theorem get?_ofText (d : Char) (l : Limits) (cs : List Char) (a : Address) :
    (ofText d l cs).store.get? a =
      if l.contains a then (field? d cs a.row.toNat a.column.toNat).map String.ofList
      else none := by
  have h := congrArg Prod.snd (seen_ofText d l cs a)
  simpa [seen, change] using h

/-! ### Dropped fields -/

theorem dropped_place {i : Import} {row column : Nat} {field : List Char}
    (h : solid field = true →
      ∃ a, Address.at? row column = some a ∧ i.store.limits.contains a = true) :
    (i.place row column field).dropped = i.dropped := by
  unfold place
  split
  · rfl
  · next hblank =>
    obtain ⟨a, ha, hin⟩ := h (by simpa [solid] using hblank)
    obtain ⟨s, hs⟩ := Store.exists_set hin (String.ofList field)
    rw [ha]
    simp only [hs]

theorem limits_place (i : Import) (row column : Nat) (field : List Char) :
    (i.place row column field).store.limits = i.store.limits := by
  have h := congrArg Prod.fst (seen_place ⟨0, 0⟩ i row column field)
  split at h
  · exact h
  · exact h

theorem limits_line (i : Import) (row : Nat) (line : List Char) :
    (i.line d row line).store.limits = i.store.limits := by
  have h := congrArg Prod.fst (seen_line (d := d) ⟨0, 0⟩ i row line)
  split at h
  · exact h
  · exact h

theorem dropped_line {i : Import} {row : Nat} {line : List Char}
    (h : ∀ column field, fieldOf? d line column = some field →
      ∃ a, Address.at? row column = some a ∧ i.store.limits.contains a = true) :
    (i.line d row line).dropped = i.dropped := by
  suffices (i.line d row line).store.limits = i.store.limits ∧
    (i.line d row line).dropped = i.dropped from this.2
  refine List.foldlRecOn (motive := fun j : Import => j.store.limits = i.store.limits ∧
    j.dropped = i.dropped) _ _ ⟨rfl, rfl⟩ fun j hj p hp => ?_
  refine ⟨by rw [limits_place, hj.1], ?_⟩
  rw [dropped_place, hj.2]
  intro hsolid
  rw [hj.1]
  refine h p.2 p.1 (Option.filter_eq_some_iff.mpr ⟨?_, hsolid⟩)
  exact List.mem_zipIdx_iff_getElem?.mp hp

/-- **Nothing is dropped if every field has its place in the sheet.** -/
theorem dropped_ofText (h : ∀ row column field, field? d cs row column = some field →
      ∃ a, Address.at? row column = some a ∧ l.contains a = true) :
    (ofText d l cs).dropped = 0 := by
  suffices (ofText d l cs).store.limits = l ∧ (ofText d l cs).dropped = 0 from this.2
  refine List.foldlRecOn (motive := fun j : Import => j.store.limits = l ∧ j.dropped = 0) _ _
    ⟨rfl, rfl⟩ fun j hj p hp => ?_
  refine ⟨by rw [limits_line, hj.1], ?_⟩
  rw [dropped_line, hj.2]
  intro column field hfield
  rw [hj.1]
  refine h p.2 column field ?_
  rw [field?_eq_linesOf, List.mem_zipIdx_iff_getElem?.mp hp]
  exact hfield

end Import

end Csv

end Spreadsheet
