/-! # Joining and cutting lists

Joined lists are all but the last one with the separator behind each, and then the last one
(`List.intercalate_concat`). What is cut from a list at an element has no elements but those of the
list, and not the one at which it is cut (`List.mem_splitOn`). A run is cut off where it stops
(`List.takeWhile_append_stop`, `List.dropWhile_append_stop`). -/

namespace List

variable {α : Type}

theorem intercalate_concat (sep l : List α) : ∀ ls : List (List α),
    intercalate sep (ls ++ [l]) = ls.flatMap (· ++ sep) ++ l
  | [] => by simp
  | l' :: ls => by
    rw [cons_append, intercalate_cons_of_ne_nil (by simp), intercalate_concat sep l ls,
      flatMap_cons, append_assoc (l' ++ sep)]

/-- Part of a separator can as well stand at the end of the lists in front of it. -/
theorem intercalate_append_concat (s t l : List α) (ls : List (List α)) :
    intercalate (s ++ t) (ls ++ [l]) = intercalate t (ls.map (· ++ s) ++ [l]) := by
  simp only [intercalate_concat, flatMap_map, append_assoc]

theorem mem_splitOn [BEq α] [LawfulBEq α] {a x : α} {l xs : List α} (hl : l ∈ xs.splitOn a)
    (hx : x ∈ l) : x ∈ xs ∧ x ≠ a := by
  induction xs generalizing l with
  | nil =>
    rw [splitOn_nil, mem_singleton] at hl
    rw [hl] at hx
    cases hx
  | cons y ys ih =>
    rw [splitOn_cons_eq_if_modifyHead] at hl
    split at hl
    · rcases mem_cons.mp hl with rfl | hl
      · cases hx
      · exact ⟨mem_cons_of_mem _ (ih hl hx).1, (ih hl hx).2⟩
    · next hy =>
      rcases hp : ys.splitOn a with _ | ⟨p, ps⟩
      · exact absurd hp (splitOn_ne_nil a ys)
      rw [hp, modifyHead_cons, mem_cons] at hl
      rw [hp] at ih
      rcases hl with rfl | hl
      · rcases mem_cons.mp hx with rfl | hx
        · exact ⟨mem_cons_self, by simpa using hy⟩
        · exact ⟨mem_cons_of_mem _ (ih mem_cons_self hx).1, (ih mem_cons_self hx).2⟩
      · have := ih (mem_cons_of_mem _ hl) hx
        exact ⟨mem_cons_of_mem _ this.1, this.2⟩

theorem takeWhile_append_stop {p : α → Bool} {l r : List α} (hl : ∀ x ∈ l, p x = true)
    (hr : ∀ x ∈ r.head?, p x = false) : (l ++ r).takeWhile p = l := by
  rw [takeWhile_append_of_pos hl]
  cases r with
  | nil => exact append_nil l
  | cons x r => rw [takeWhile_cons_of_neg (by simp [hr x rfl]), append_nil]

theorem dropWhile_append_stop {p : α → Bool} {l r : List α} (hl : ∀ x ∈ l, p x = true)
    (hr : ∀ x ∈ r.head?, p x = false) : (l ++ r).dropWhile p = r := by
  rw [dropWhile_append_of_pos hl]
  cases r with
  | nil => rfl
  | cons x r => rw [dropWhile_cons_of_neg (by simp [hr x rfl])]

end List
