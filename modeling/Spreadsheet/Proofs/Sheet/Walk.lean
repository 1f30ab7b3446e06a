import Mathlib.Logic.Function.Iterate
import Mathlib.Tactic.WLOG
import Spreadsheet.Proofs.Sheet.Reads

/-! # Depth-first walks

A walk goes to given cells in order, and from a cell to the cells it reads, in order, before it
finishes the cell. It goes past a cell that holds nothing, is finished or is yet to be finished.

A walk goes to a cell for the first time at most once: `Walk.Arrives.unique`. It finds a cell on a
cycle if the cell then lies on a cycle of cells none of which is finished: `Walk.Finds`. -/

namespace Spreadsheet

/-- What a walk has to do: go to a cell, or finish a cell when it has been to the cells it reads. -/
inductive Task where
  | visit (a : Address)
  | finish (a : Address)
  deriving DecidableEq

/-- A walk: what is to be done, in order, and the finished cells, the latest first. -/
structure Walk where
  agenda : List Task
  finished : List Address := []
  deriving DecidableEq

namespace Walk

/-- The walk that goes to the given cells. -/
def start (roots : List Address) : Walk := { agenda := roots.map .visit }

/-- Whether a walk goes past a cell: it holds nothing, is finished, or is yet to be finished. -/
def Skips (s : Store) (rest : List Task) (finished : List Address) (a : Address) : Prop :=
  s.get? a = none ∨ a ∈ finished ∨ .finish a ∈ rest

instance (s : Store) (rest : List Task) (finished : List Address) (a : Address) :
    Decidable (Skips s rest finished a) :=
  inferInstanceAs (Decidable (s.get? a = none ∨ a ∈ finished ∨ .finish a ∈ rest))

/-- One step of a walk. -/
def step (s : Store) (w : Walk) : Walk :=
  match w.agenda with
  | [] => w
  | .visit a :: rest =>
    if Skips s rest w.finished a then ⟨rest, w.finished⟩
    else ⟨(s.readsOf a).map .visit ++ .finish a :: rest, w.finished⟩
  | .finish a :: rest => ⟨rest, a :: w.finished⟩

/-- The walk to `roots` comes to the state `w`. -/
def Reached (s : Store) (roots : List Address) (w : Walk) : Prop :=
  ∃ n, (step s)^[n] (start roots) = w

/-- The walk to `roots` goes to the cell `a` for the first time when the cells `finished` are
finished. -/
def Arrives (s : Store) (roots : List Address) (a : Address) (finished : List Address) : Prop :=
  ∃ rest, Reached s roots ⟨.visit a :: rest, finished⟩ ∧ ¬ Skips s rest finished a

/-- **The walk to `roots` finds the cell `a` on a cycle**: when it goes to `a` for the first time,
`a` lies on a cycle of cells none of which is finished. -/
def Finds (s : Store) (roots : List Address) (a : Address) : Prop :=
  ∃ finished, Arrives s roots a finished ∧ s.OnCycleOutside finished a

variable {s : Store} {roots : List Address} {a b : Address} {rest : List Task}
  {finished : List Address} {w : Walk}

theorem step_skip (h : Skips s rest finished a) :
    step s ⟨.visit a :: rest, finished⟩ = ⟨rest, finished⟩ := if_pos h

theorem step_visit (h : ¬ Skips s rest finished a) : step s ⟨.visit a :: rest, finished⟩ =
    ⟨(s.readsOf a).map .visit ++ .finish a :: rest, finished⟩ := if_neg h

theorem step_finish : step s ⟨.finish a :: rest, finished⟩ = ⟨rest, a :: finished⟩ := rfl

theorem reached_start : Reached s roots (start roots) := ⟨0, rfl⟩

theorem Reached.step (h : Reached s roots w) : Reached s roots (step s w) := by
  obtain ⟨n, rfl⟩ := h
  exact ⟨n + 1, Function.iterate_succ_apply' ..⟩

theorem Finds.onCycle (h : Finds s roots a) : s.OnCycle a := by
  obtain ⟨finished, -, hc⟩ := h
  exact hc.onCycle

/-- The walk has gone to the cell. -/
def Begun (w : Walk) (a : Address) : Prop := a ∈ w.finished ∨ .finish a ∈ w.agenda

theorem Begun.step (h : w.Begun a) : (step s w).Begun a := by
  obtain ⟨agenda, finished⟩ := w
  match agenda with
  | [] => exact h
  | .visit b :: rest =>
    have h' : a ∈ finished ∨ .finish a ∈ rest := by simpa [Begun] using h
    by_cases hb : Skips s rest finished b
    · rw [step_skip hb]
      exact h'
    · rw [step_visit hb]
      exact h'.imp_right fun h => by simp [h]
  | .finish b :: rest =>
    rw [step_finish]
    rcases h with h | h
    · exact Or.inl (List.mem_cons_of_mem b h)
    · rcases List.mem_cons.mp h with h | h
      · cases h
        exact Or.inl List.mem_cons_self
      · exact Or.inr h

theorem Begun.iterate (h : w.Begun a) (n : Nat) : ((Walk.step s)^[n] w).Begun a := by
  induction n with
  | zero => exact h
  | succ n ih =>
    rw [Function.iterate_succ_apply']
    exact ih.step

theorem begun_step_visit (h : ¬ Skips s rest finished a) :
    (step s ⟨.visit a :: rest, finished⟩).Begun a := by
  rw [step_visit h]
  exact Or.inr (by simp)

theorem skips_of_begun (h : Begun ⟨.visit a :: rest, finished⟩ a) : Skips s rest finished a := by
  rcases h with h | h
  · exact Or.inr (Or.inl h)
  · exact Or.inr (Or.inr (by simpa using h))

/-- **A walk goes to a cell for the first time once.** -/
theorem Arrives.unique {finished' : List Address} (h : Arrives s roots a finished)
    (h' : Arrives s roots a finished') : finished = finished' := by
  obtain ⟨rest, ⟨n, hn⟩, hs⟩ := h
  obtain ⟨rest', ⟨k, hk⟩, hs'⟩ := h'
  wlog hle : n ≤ k generalizing n k rest rest' finished finished'
  · exact (this rest' hs' k hk rest hs n hn (Nat.le_of_not_le hle)).symm
  rcases Nat.eq_or_lt_of_le hle with rfl | hlt
  · rw [hn] at hk
    exact congrArg Walk.finished hk
  · -- after the first visit the cell counts as begun, so the second one goes past it
    obtain ⟨d, rfl⟩ : ∃ d, k = d + (n + 1) := ⟨k - (n + 1), by omega⟩
    rw [Function.iterate_add_apply, Function.iterate_succ_apply', hn] at hk
    have hb : Begun ⟨.visit a :: rest', finished'⟩ a := hk ▸ (begun_step_visit hs).iterate d
    exact absurd (skips_of_begun hb) hs'

theorem Arrives.finds_iff (h : Arrives s roots a finished) :
    Finds s roots a ↔ s.OnCycleOutside finished a := by
  constructor
  · rintro ⟨finished', h', hc⟩
    rwa [h.unique h']
  · exact fun hc => ⟨finished, h, hc⟩

end Walk

end Spreadsheet
