import Mathlib.Data.Set.Card
import Spreadsheet.Edit
import Spreadsheet.Proofs.Csv.Grid

/-! # What a sheet holds after some edits

Main statement: `Store.after_holds`. However a sheet has come about, a cell holds what the last call
that was carried out for it has left there (`Store.lastLeft`), and the list of cells, their number
and what removing a cell answers agree with that.

The step is `Store.text_apply`: a call that is carried out changes the text of its own cell only,
and one that is refused changes nothing. `Store.isRefusal_iff` says which calls are refused. -/

namespace Spreadsheet

namespace Store

variable {s s' : Store} {a b : Address} {t : String} {l : Limits}

/-! ### Texts -/

theorem text_eq_empty_iff : s.text a = "" ↔ s.get? a = none := by
  cases h : s.get? a with
  | none => simp [text, h]
  | some t => simp [text, h, s.text_ne a t h]

theorem get?_eq_some_iff : s.get? a = some t ↔ t = s.text a ∧ s.text a ≠ "" := by
  rw [ne_eq, text_eq_empty_iff]
  cases h : s.get? a with
  | none => simp
  | some u => simp [text, h, eq_comm]

theorem text_empty (l : Limits) (a : Address) : (empty l).text a = "" :=
  text_eq_empty_iff.mpr (get?_empty l a)

theorem text_set (h : s.set a t = .ok s') (b : Address) :
    s'.text b = if a = b then t else s.text b := by
  rw [text, get?_set h, text]
  split
  · split
    · next ht => rw [ht]; rfl
    · rfl
  · rfl

theorem text_erase (s : Store) (a b : Address) :
    (s.erase a).text b = if a = b then "" else s.text b := by
  rw [text, get?_erase, text]
  split
  · rfl
  · rfl

theorem nodup_map_fst_toList (s : Store) : (s.toList.map Prod.fst).Nodup := by
  refine List.pairwise_map.mpr ((Csv.inOrder_toList s.cells).imp fun hlt heq => ?_)
  rw [heq] at hlt
  exact Nat.lt_irrefl _ hlt

/-- **The size of a sheet is the number of cells with a text.** -/
theorem size_eq_ncard (s : Store) : s.size = {a | s.text a ≠ ""}.ncard := by
  have hmem : {a | s.text a ≠ ""} = ↑(s.toList.map Prod.fst).toFinset := by
    ext a
    simp [mem_toList, get?_eq_some_iff]
  rw [hmem, Set.ncard_coe_finset, List.toFinset_card_of_nodup s.nodup_map_fst_toList,
    List.length_map, size, toList, Std.TreeMap.length_toList]

/-! ### One call -/

/-- The cell that a call is about, if it names one. -/
def Edit.place? : Edit → Option Address
  | write a _ | remove a => some a
  | writeAt address _ => (Address.read address).toOption

/-- The text that a call leaves in its cell. -/
def Edit.text : Edit → String
  | write _ t | writeAt _ t => t
  | remove _ => ""

def Edit.isWrite : Edit → Bool
  | write _ _ | writeAt _ _ => true
  | remove _ => false

def Reply.isRefusal : Reply → Bool
  | refused _ => true
  | done | removed _ => false

/-- What a call leaves in a cell, if it has been carried out and is about the cell. -/
def left? (a : Address) (p : Edit × Reply) : Option String :=
  if p.1.place? = some a ∧ p.2.isRefusal = false then some p.1.text else none

/-- A text that names a cell is as good as the cell. -/
theorem apply_writeAt (s : Store) (address t : String) : s.apply (.writeAt address t) =
    match Address.read address with
    | .ok a => s.apply (.write a t)
    | .error fault => (.refused (.address fault), s) := by
  simp only [apply, setAt]
  cases Address.read address with
  | ok a => rfl
  | error fault => rfl

theorem apply_write_cases (s : Store) (a : Address) (t : String) :
    (s.limits.contains a = true ∧
      ∃ s', s.set a t = .ok s' ∧ s.apply (.write a t) = (.done, s')) ∨
    s.limits.contains a = false ∧ ∃ err, s.apply (.write a t) = (.refused err, s) := by
  cases hin : s.limits.contains a with
  | true =>
    obtain ⟨s', hs'⟩ := exists_set hin t
    refine Or.inl ⟨rfl, s', hs', ?_⟩
    rw [apply, hs']
    rfl
  | false =>
    obtain ⟨err, herr⟩ := set_of_not_contains (t := t) hin
    refine Or.inr ⟨rfl, err, ?_⟩
    rw [apply, herr]
    rfl

/-- **All that a call can do**: write into a cell of the sheet, be refused, or remove a cell. -/
theorem apply_cases (s : Store) (e : Edit) :
    (e.isWrite = true ∧ ∃ a s', e.place? = some a ∧ s.limits.contains a = true ∧
      s.set a e.text = .ok s' ∧ s.apply e = (.done, s')) ∨
    (e.isWrite = true ∧ (∀ a, e.place? = some a → s.limits.contains a = false) ∧
      ∃ err, s.apply e = (.refused err, s)) ∨
    ∃ a, e = .remove a ∧ s.apply e = (.removed (s.get? a), s.erase a) := by
  cases e with
  | write a t =>
    rcases s.apply_write_cases a t with ⟨hin, s', hset, happly⟩ | ⟨hout, err, happly⟩
    · exact .inl ⟨rfl, a, s', rfl, hin, hset, happly⟩
    · refine .inr (.inl ⟨rfl, ?_, err, happly⟩)
      rintro b ⟨⟩
      exact hout
  | writeAt address t =>
    rw [apply_writeAt]
    cases hread : Address.read address with
    | ok a =>
      have hplace : (Edit.writeAt address t).place? = some a := by
        rw [Edit.place?, hread]
        rfl
      rcases s.apply_write_cases a t with ⟨hin, s', hset, happly⟩ | ⟨hout, err, happly⟩
      · exact .inl ⟨rfl, a, s', hplace, hin, hset, happly⟩
      · refine .inr (.inl ⟨rfl, fun b hb => ?_, err, happly⟩)
        rw [hplace] at hb
        cases hb
        exact hout
    | error fault =>
      refine .inr (.inl ⟨rfl, fun b hb => ?_, _, rfl⟩)
      rw [Edit.place?, hread] at hb
      cases hb
  | remove a => exact .inr (.inr ⟨a, rfl, rfl⟩)

/-- **A refused call changes nothing.** -/
theorem apply_of_refused {e : Edit} {err : PositionError} (h : (s.apply e).1 = .refused err) :
    (s.apply e).2 = s := by
  rcases s.apply_cases e with ⟨-, a, s', -, -, -, happly⟩ | ⟨-, -, e', happly⟩ | ⟨a, -, happly⟩
  · rw [happly] at h
    cases h
  · rw [happly]
  · rw [happly] at h
    cases h

theorem limits_apply (s : Store) (e : Edit) : (s.apply e).2.limits = s.limits := by
  rcases s.apply_cases e with ⟨-, a, s', -, -, hset, happly⟩ | ⟨-, -, e', happly⟩ | ⟨a, -, happly⟩
  · rw [happly, limits_set hset]
  · rw [happly]
  · rw [happly]
    rfl

/-- **Which calls are refused**: those that write outside the limits, or into no cell at all. -/
theorem isRefusal_iff {e : Edit} : (s.apply e).1.isRefusal = true ↔
    e.isWrite = true ∧ ∀ a, e.place? = some a → s.limits.contains a = false := by
  rcases s.apply_cases e with ⟨-, a, s', hplace, hin, -, happly⟩ | ⟨hwrite, hout, e', happly⟩ |
    ⟨a, rfl, happly⟩
  · rw [happly]
    refine iff_of_false Bool.false_ne_true fun h => ?_
    rw [h.2 a hplace] at hin
    cases hin
  · rw [happly]
    exact iff_of_true rfl ⟨hwrite, hout⟩
  · rw [happly]
    exact iff_of_false Bool.false_ne_true fun h => Bool.false_ne_true h.1

/-- **A call changes the text of its own cell only**, and only if it is carried out. -/
theorem text_apply (s : Store) (e : Edit) (a : Address) :
    (s.apply e).2.text a = (left? a (e, (s.apply e).1)).getD (s.text a) := by
  rcases s.apply_cases e with ⟨-, b, s', hplace, -, hset, happly⟩ | ⟨-, -, e', happly⟩ |
    ⟨b, rfl, happly⟩
  · rw [happly, text_set hset]
    by_cases hb : b = a
    · simp [left?, hplace, hb, Reply.isRefusal]
    · simp [left?, hplace, hb]
  · rw [happly]
    simp [left?, Reply.isRefusal]
  · rw [happly, text_erase]
    by_cases hb : b = a
    · simp [left?, Edit.place?, Edit.text, hb, Reply.isRefusal]
    · simp [left?, Edit.place?, hb]

/-- Removing a cell answers with the text that it had. -/
theorem remove_fst (s : Store) (a : Address) :
    (s.remove a).1 = if s.text a = "" then none else some (s.text a) := by
  show s.get? a = _
  split
  · next h => exact text_eq_empty_iff.mp h
  · next h => exact get?_eq_some_iff.mpr ⟨rfl, h⟩

/-! ### Any number of calls -/

/-- Carries out calls one after the other. -/
def run (s : Store) : List Edit → List Reply × Store
  | [] => ([], s)
  | e :: es => ((s.apply e).1 :: ((s.apply e).2.run es).1, ((s.apply e).2.run es).2)

/-- Calls with their answers on a sheet that begins empty. -/
def history (l : Limits) (edits : List Edit) : List (Edit × Reply) :=
  edits.zip ((empty l).run edits).1

/-- The sheet after some calls. -/
def after (l : Limits) (edits : List Edit) : Store := ((empty l).run edits).2

/-- **The text that the last call left in a cell**, of those that have been carried out and are
about the cell. -/
def lastLeft (history : List (Edit × Reply)) (a : Address) : String :=
  (history.filterMap (left? a)).getLast?.getD ""

theorem limits_run (s : Store) (es : List Edit) : (s.run es).2.limits = s.limits := by
  induction es generalizing s with
  | nil => rfl
  | cons e es ih => rw [run, ih, limits_apply]

/-- By induction on the calls; what they do not touch is as it was in the beginning. -/
theorem text_run (s : Store) (es : List Edit) (a : Address) : (s.run es).2.text a =
    ((es.zip (s.run es).1).filterMap (left? a)).getLast?.getD (s.text a) := by
  induction es generalizing s with
  | nil => rfl
  | cons e es ih =>
    rw [run, ih, text_apply, List.zip_cons_cons, List.filterMap_cons]
    cases left? a (e, (s.apply e).1) with
    | none => rfl
    | some t =>
      rw [List.getLast?_cons, Option.getD_some, Option.getD_some]

/-- **What a sheet holds after some calls.** A cell holds what the last call left there. No text is
empty, and all cells lie within the limits. The size counts the cells with a text, which are listed
row by row. Removing a cell answers with its text, and a refused call changes nothing. -/
theorem after_holds (l : Limits) (edits : List Edit) :
    (∀ a, (after l edits).text a = lastLeft (history l edits) a) ∧
    (∀ a t, (after l edits).get? a = some t → t ≠ "" ∧ l.contains a = true) ∧
    (after l edits).size = {a | (after l edits).text a ≠ ""}.ncard ∧
    (∀ a t, (a, t) ∈ (after l edits).toList ↔
      t = (after l edits).text a ∧ (after l edits).text a ≠ "") ∧
    ((after l edits).toList.Pairwise fun p q => p.1.Before q.1) ∧
    (∀ a, ((after l edits).remove a).1 =
      if (after l edits).text a = "" then none else some ((after l edits).text a)) ∧
    (∀ e, ((after l edits).apply e).1.isRefusal = true ↔
      e.isWrite = true ∧ ∀ a, e.place? = some a → l.contains a = false) ∧
    ∀ e err, ((after l edits).apply e).1 = .refused err →
      ((after l edits).apply e).2 = after l edits := by
  have hlimits : (after l edits).limits = l := limits_run _ _
  refine ⟨fun a => ?_, fun a t h => ⟨text_ne _ a t h, ?_⟩, size_eq_ncard _, fun a t => ?_, ?_,
    remove_fst _, fun e => ?_, fun e err => apply_of_refused⟩
  · rw [after, text_run, text_empty]
    rfl
  · rw [← hlimits]
    exact inside _ a t h
  · rw [mem_toList, get?_eq_some_iff]
  · exact (Csv.inOrder_toList _).imp Address.index_lt_iff.mp
  · rw [isRefusal_iff, hlimits]

end Store

end Spreadsheet
