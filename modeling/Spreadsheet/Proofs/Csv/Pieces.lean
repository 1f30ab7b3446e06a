import Spreadsheet.Csv.Import
import Spreadsheet.Csv.Text
import Spreadsheet.Proofs.Text.Joining
import Mathlib.Data.List.DropRight

/-! # Cutting texts

`pieces_intercalate`: cutting at a character undoes joining with it, for parts that do not have it.
`mem_of_mem_piece` and `notMem_piece`: the pieces of any text have no characters but those of the
text, and not the one at which the text is cut.

`map_withoutReturn_pieces` says the same of lines, however they are terminated: a carriage return at
the end of a line is lost where the text has no other behind it. `linesOf_append` says that reading
leaves out nothing but empty lines at the end. -/

namespace Spreadsheet.Csv

variable {c d x : Char} {cs l : List Char} {ls : List (List Char)}

/-! ### Pieces -/

theorem toList_piecesOnto (c : Char) (cs : List Char) (found : Array (List Char)) :
    (piecesOnto c cs found).toList = found.toList ++ cs.splitOn c := by
  induction cs, found using piecesOnto.induct c with
  | case1 cs found h =>
    have hc : c ∉ cs := by
      intro hc
      simpa using List.dropWhile_eq_nil_iff.mp h c hc
    rw [piecesOnto]
    split
    · rw [Array.toList_push, List.splitOn_eq_singleton hc]
    · next h' => cases h.symm.trans h'
  | case2 cs found y rest h ih =>
    have hy : y = c := by
      have := List.head?_dropWhile_not (fun e => decide (e ≠ c)) cs
      rw [h] at this
      simpa using this
    have hc : c ∉ cs.takeWhile fun e => decide (e ≠ c) := by
      intro hc
      simpa using List.mem_takeWhile_imp hc
    have hcs := List.takeWhile_append_dropWhile (p := fun e => decide (e ≠ c)) (l := cs)
    rw [h, hy] at hcs
    rw [piecesOnto]
    split
    · next h' => cases h'.symm.trans h
    · next z rest' h' =>
      obtain ⟨-, rfl⟩ := List.cons.inj (h.symm.trans h')
      rw [ih, Array.toList_push, List.append_assoc]
      congr 1
      conv_rhs => rw [← hcs, List.splitOn_append_cons_self_of_not_mem hc]
      rfl

theorem pieces_eq_splitOn (c : Char) (cs : List Char) : pieces c cs = cs.splitOn c := by
  rw [pieces, toList_piecesOnto]
  rfl

@[simp] theorem pieces_nil (c : Char) : pieces c [] = [[]] := by
  rw [pieces_eq_splitOn, List.splitOn_nil]

/-- **Cutting undoes joining.** -/
theorem pieces_intercalate (hls : ls ≠ []) (h : ∀ l ∈ ls, c ∉ l) :
    pieces c (List.intercalate [c] ls) = ls := by
  rw [pieces_eq_splitOn, List.splitOn_intercalate c h hls]

theorem mem_of_mem_piece (hl : l ∈ pieces c cs) (hx : x ∈ l) : x ∈ cs :=
  (List.mem_splitOn (pieces_eq_splitOn c cs ▸ hl) hx).1

theorem notMem_piece (hl : l ∈ pieces c cs) : c ∉ l := fun hc =>
  (List.mem_splitOn (pieces_eq_splitOn c cs ▸ hl) hc).2 rfl

/-! ### Carriage returns -/

theorem withoutReturn_concat (l : List Char) : withoutReturn (l ++ ['\r']) = l := by
  simp [withoutReturn]

theorem withoutReturn_of_ne (h : l.getLast? ≠ some '\r') : withoutReturn l = l := if_neg h

theorem withoutReturn_ne (h : l.getLast? = some '\r') : withoutReturn l ≠ l := by
  obtain ⟨l, rfl⟩ := List.getLast?_eq_some_iff.mp h
  rw [withoutReturn_concat]
  simp

theorem mem_of_mem_withoutReturn (hx : x ∈ withoutReturn l) : x ∈ l := by
  unfold withoutReturn at hx
  split at hx
  · exact List.dropLast_subset _ hx
  · exact hx

/-- A carriage return is taken from the last of some joined texts, unless that one is empty. -/
theorem withoutReturn_append (l : List Char) {l' : List Char} (h : l' ≠ []) :
    withoutReturn (l ++ l') = l ++ withoutReturn l' := by
  unfold withoutReturn
  rw [List.getLast?_append_of_ne_nil _ h, List.dropLast_append_of_ne_nil h]
  split <;> rfl

/-! ### Lines -/

/-- **Reading leaves out nothing but empty lines at the end.** -/
theorem linesOf_append (cs : List Char) :
    ∃ n, (pieces '\n' cs).map withoutReturn = linesOf cs ++ List.replicate n [] := by
  let ls := (pieces '\n' cs).map withoutReturn
  have hends : ls.reverse.takeWhile List.isEmpty =
      List.replicate (ls.reverse.takeWhile List.isEmpty).length [] := by
    refine List.eq_replicate_iff.mpr ⟨rfl, fun l hl => ?_⟩
    simpa using List.mem_takeWhile_imp hl
  refine ⟨(ls.reverse.takeWhile List.isEmpty).length, ?_⟩
  have hls := congrArg List.reverse
    (List.takeWhile_append_dropWhile (p := List.isEmpty) (l := ls.reverse))
  rw [List.reverse_append, List.reverse_reverse, hends, List.reverse_replicate] at hls
  exact hls.symm

/-- **The lines of joined lines.** Where they are joined with a carriage return in front of the line
feed, only the last one can lose one of its own. -/
theorem map_withoutReturn_pieces {l : List Char} (t : Terminator)
    (h : ∀ l' ∈ ls ++ [l], '\n' ∉ l') :
    (pieces '\n' (List.intercalate t.text.toList (ls ++ [l]))).map withoutReturn =
      (if t = .lf then ls.map withoutReturn else ls) ++ [withoutReturn l] := by
  cases t with
  | lf =>
    have hcut : pieces '\n' (List.intercalate ['\n'] (ls ++ [l])) = ls ++ [l] :=
      pieces_intercalate (by simp) h
    show (pieces '\n' (List.intercalate ['\n'] (ls ++ [l]))).map withoutReturn = _
    rw [hcut]
    simp
  | crlf =>
    have hcut : pieces '\n' (List.intercalate ['\n'] (ls.map (· ++ ['\r']) ++ [l])) =
        ls.map (· ++ ['\r']) ++ [l] := by
      refine pieces_intercalate (by simp) fun l' hl' => ?_
      rcases List.mem_append.mp hl' with hl' | hl'
      · obtain ⟨l'', hl'', rfl⟩ := List.mem_map.mp hl'
        have := h l'' (List.mem_append_left _ hl'')
        simpa using this
      · exact h l' (List.mem_append_right _ hl')
    show (pieces '\n' (List.intercalate (['\r'] ++ ['\n']) (ls ++ [l]))).map withoutReturn = _
    rw [List.intercalate_append_concat, hcut]
    simp [Function.comp_def, withoutReturn_concat]

end Spreadsheet.Csv
