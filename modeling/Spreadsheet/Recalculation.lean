import Spreadsheet.Compile
import Spreadsheet.Evaluation
import Spreadsheet.Store
import Std.Data.TreeSet.Lemmas

/-! # Recalculating a sheet

A recalculation finds the text that every cell of a sheet shows. Cells without a formula show their
own text; the others show what their formulas give, after the cells that they read.

A pass goes through the cells row by row and visits each once. A formula waits until the cells it
reads are settled: `Pass.waiting` is the chain of waiting formulas, each of which is read by the one
behind it. A cell that is read while it waits closes a cycle, and so all formulas from the latest
one back to it are marked as cyclic and show the marker of a cycle.

`Pass.drain` goes on until no formula waits. It ends: every step visits a cell that was not visited
before, or takes one cell from the list of those that a waiting formula has to read, or settles a
waiting formula. -/

namespace Spreadsheet

namespace Program

/-- The cells of a sheet with a text that a program reads, in order. -/
def reads (s : Store) (p : Program) : List Address := p.cells.filter fun a => (s.get? a).isSome

/-- Whether a program calls a function that changes. -/
def callsVolatile (p : Program) : Bool :=
  p.any fun
    | .call name _ => (Function.named? name).any Function.isVolatile
    | _ => false

end Program

/-- A formula that waits for the cells it reads. -/
structure Frame where
  address : Address
  program : Program
  /-- The cells that are still to be visited for it, in order. -/
  unread : List Address

/-- What a recalculation has found so far. -/
structure Pass where
  /-- The texts that finished cells show. -/
  settled : Std.TreeMap Address String := ∅
  /-- The formulas that wait, the latest first. -/
  waiting : List Frame := []
  /-- The cells of the formulas that wait. -/
  underway : Std.TreeSet Address := ∅
  /-- The cells known to lie on a cycle. -/
  cyclic : Std.TreeSet Address := ∅
  /-- The number of formulas compiled. -/
  formulas : Nat := 0
  /-- The number of them that call a function that changes. -/
  volatile : Nat := 0
  /-- The number of finished cells that show a marker. -/
  errors : Nat := 0

namespace Pass

/-- Finishes a cell with a text; a cell on a cycle shows the marker of a cycle. -/
def settle (p : Pass) (a : Address) (text : String) : Pass :=
  let shown := if p.cyclic.contains a then Marker.cycle.text else text
  { p with
    settled := p.settled.insert a shown
    underway := p.underway.erase a
    errors := if (Marker.ofText? shown).isSome then p.errors + 1 else p.errors }

/-- The cells of the waiting formulas from the latest one back to the given cell. -/
def chainTo (p : Pass) (a : Address) : List Address :=
  a :: (p.waiting.map Frame.address).takeWhile (· ≠ a)

/-- Marks the cycle that reading a waiting cell closes. -/
def closeCycle (p : Pass) (a : Address) : Pass :=
  { p with cyclic := (p.chainTo a).foldl (fun set b => set.insert b) p.cyclic }

/-- Lets the formula of a cell wait for the cells it reads. -/
def suspend (s : Store) (p : Pass) (a : Address) (source : String) : Pass :=
  let program := Program.ofSource s.limits source
  { p with
    waiting := ⟨a, program, program.reads s⟩ :: p.waiting
    underway := p.underway.insert a
    formulas := p.formulas + 1
    volatile := if program.callsVolatile then p.volatile + 1 else p.volatile }

/-- Starts on a cell, unless it holds nothing, is finished, or waits already. -/
def enter (s : Store) (p : Pass) (a : Address) : Pass :=
  match s.get? a with
  | none => p
  | some text =>
    if p.settled.contains a then p
    else if p.underway.contains a then p.closeCycle a
    else if isFormula text then p.suspend s a text
    else p.settle a text

/-- The scalar that a formula reads from a cell: what a finished cell shows, read again; the marker
of a cycle for a cell that waits; nothing for any other cell. -/
def reading (p : Pass) (a : Address) : Scalar :=
  match p.settled[a]? with
  | some shown => .ofShown shown
  | none => if p.underway.contains a then .ofShown Marker.cycle.text else .empty

/-- The number of cells of the sheet that are neither finished nor waiting. -/
def unvisited (s : Store) (p : Pass) : Nat :=
  s.addresses.countP fun a => !p.settled.contains a && !p.underway.contains a

/-- The number of steps that the waiting formulas take if they meet no unvisited cell. -/
def steps (p : Pass) : Nat := (p.waiting.flatMap Frame.unread).length + p.waiting.length

theorem countP_lt {p q : Address → Bool} {l : List Address} (hpq : ∀ x ∈ l, p x = true → q x = true)
    {a : Address} (ha : a ∈ l) (hp : p a = false) (hq : q a = true) :
    l.countP p < l.countP q := by
  induction l with
  | nil => cases ha
  | cons b l ih =>
    have hle : l.countP p ≤ l.countP q :=
      List.countP_mono_left fun x hx => hpq x (List.mem_cons_of_mem b hx)
    have hb := hpq b List.mem_cons_self
    rw [List.countP_cons, List.countP_cons]
    rcases List.mem_cons.mp ha with rfl | ha
    · simp only [hp, hq, if_true]; simp; omega
    · have := ih (fun x hx => hpq x (List.mem_cons_of_mem b hx)) ha
      by_cases hpb : p b = true
      · rw [if_pos hpb, if_pos (hb hpb)]
        omega
      · rw [if_neg hpb]
        omega

theorem unvisited_settle_le (s : Store) (p : Pass) (a : Address) (text : String) :
    (p.settle a text).unvisited s ≤ p.unvisited s := by
  refine List.countP_mono_left fun b _ h => ?_
  simp only [settle, Std.TreeMap.contains_insert, Std.TreeSet.contains_erase, Bool.and_eq_true,
    Bool.not_eq_eq_eq_not, Bool.not_true, Bool.or_eq_false_iff, beq_eq_false_iff_ne] at h ⊢
  obtain ⟨⟨h1, h2⟩, h3⟩ := h
  refine ⟨h2, ?_⟩
  simpa [h1] using h3

/-- Starting on a cell visits a new one, or leaves the waiting formulas with as many steps as
before. -/
theorem enter_measure (s : Store) (p : Pass) (a : Address) :
    (p.enter s a).unvisited s < p.unvisited s ∨
      (p.enter s a).unvisited s = p.unvisited s ∧ (p.enter s a).steps = p.steps := by
  unfold enter
  split
  · exact Or.inr ⟨rfl, rfl⟩
  · next text ht =>
    have hmem : a ∈ s.addresses := by
      rw [Store.addresses, Std.TreeMap.mem_keys, Std.TreeMap.mem_iff_isSome_getElem?]
      simp only [Store.get?] at ht
      simp [ht]
    split
    · exact Or.inr ⟨rfl, rfl⟩
    · split
      · exact Or.inr ⟨rfl, rfl⟩
      · next hs hu =>
        left
        split
        · refine countP_lt (a := a) (fun b _ h => ?_) hmem ?_ ?_
          · simp only [suspend, Std.TreeSet.contains_insert, Bool.and_eq_true,
              Bool.not_eq_eq_eq_not, Bool.not_true, Bool.or_eq_false_iff] at h ⊢
            exact ⟨h.1, h.2.2⟩
          · simp [suspend]
          · simp [hs, hu]
        · refine countP_lt (a := a) (fun b _ h => ?_) hmem ?_ ?_
          · simp only [settle, Std.TreeMap.contains_insert, Std.TreeSet.contains_erase,
              Bool.and_eq_true, Bool.not_eq_eq_eq_not, Bool.not_true, Bool.or_eq_false_iff,
              beq_eq_false_iff_ne] at h ⊢
            obtain ⟨⟨h1, h2⟩, h3⟩ := h
            refine ⟨h2, ?_⟩
            simpa [h1] using h3
          · simp [settle]
          · simp [hs, hu]

/-- Starting on the next cell that the latest formula has to read takes a step. -/
theorem measure_take (s : Store) {p : Pass} {f : Frame} {rest : List Frame} {a : Address}
    {unread : List Address} (hw : p.waiting = f :: rest) (hu : f.unread = a :: unread) :
    Prod.Lex (· < ·) (· < ·)
      (unvisited s (enter s { p with waiting := { f with unread } :: rest } a),
        steps (enter s { p with waiting := { f with unread } :: rest } a))
      (p.unvisited s, p.steps) := by
  have hs : p.steps = steps { p with waiting := { f with unread } :: rest } + 1 := by
    simp [steps, hw, hu]; omega
  rcases enter_measure s { p with waiting := { f with unread } :: rest } a with h | ⟨h1, h2⟩
  · exact Prod.Lex.left _ _ h
  · rw [h1, h2, hs]
    exact Prod.Lex.right _ (Nat.lt_succ_self _)

/-- Settling the latest formula takes a step. -/
theorem measure_finish (s : Store) {p : Pass} {f : Frame} {rest : List Frame}
    (hw : p.waiting = f :: rest) (hu : f.unread = []) (text : String) :
    Prod.Lex (· < ·) (· < ·)
      (unvisited s (settle { p with waiting := rest } f.address text),
        steps (settle { p with waiting := rest } f.address text))
      (p.unvisited s, p.steps) := by
  have hs : p.steps = steps { p with waiting := rest } + 1 := by
    simp [steps, hw, hu]; omega
  rcases Nat.lt_or_eq_of_le
    (unvisited_settle_le s { p with waiting := rest } f.address text) with h | h
  · exact Prod.Lex.left _ _ h
  · rw [h, hs]
    exact Prod.Lex.right _ (Nat.lt_succ_self _)

section

variable {m : Type → Type} [Monad m]

/-- Where a formula reads from during a pass. -/
def source (p : Pass) (volatile : Volatile → m Scalar) : Source m where
  cell a := pure (p.reading a)
  volatile := volatile

/-- Goes on with the latest waiting formula until none waits. -/
def drain (s : Store) (volatile : Volatile → m Scalar) (p : Pass) : m Pass :=
  match _ : p.waiting with
  | [] => pure p
  | f :: rest =>
    match _ : f.unread with
    | a :: unread =>
      drain s volatile (enter s { p with waiting := { f with unread } :: rest } a)
    | [] => do
      let text ← f.program.shown (p.source volatile)
      drain s volatile (settle { p with waiting := rest } f.address text)
termination_by (p.unvisited s, p.steps)
decreasing_by
  · exact measure_take s ‹_› ‹_›
  · exact measure_finish s ‹_› ‹_› text

/-- Visits a cell and all cells it reads. -/
def visit (s : Store) (volatile : Volatile → m Scalar) (p : Pass) (a : Address) : m Pass :=
  drain s volatile (p.enter s a)

def visitAll (s : Store) (volatile : Volatile → m Scalar) (p : Pass) (as : List Address) :
    m Pass :=
  as.foldlM (visit s volatile) p

end

end Pass

/-- Counts over a recalculation. -/
structure Stats where
  formulas : Nat
  /-- The number of cells. -/
  calculated : Nat
  /-- The number of cells on cycles. -/
  circular : Nat
  /-- The number of formulas that call a function that changes. -/
  volatile : Nat
  /-- The number of cells that show a marker. -/
  errors : Nat
  deriving DecidableEq, Repr

/-- The outcome of a recalculation. -/
structure Recalculation where
  /-- The text that every cell shows. -/
  shown : Std.TreeMap Address String
  stats : Stats

namespace Recalculation

/-- The cells and the texts they show, row by row. -/
def toList (r : Recalculation) : List (Address × String) := r.shown.toList

/-- The text that a cell shows; the empty one for a cell that holds nothing. -/
def text (r : Recalculation) (a : Address) : String := (r.shown[a]?).getD ""

end Recalculation

def Pass.stats (p : Pass) : Stats where
  formulas := p.formulas
  calculated := p.settled.size
  circular := p.cyclic.size
  volatile := p.volatile
  errors := p.errors

section

variable {m : Type → Type} [Monad m]

/-- **Finds the texts that the cells of a sheet show.** -/
def Store.recalculate (s : Store) (volatile : Volatile → m Scalar) : m Recalculation :=
  return (fun p => ⟨p.settled, p.stats⟩) (← Pass.visitAll s volatile {} s.addresses)

/-- **The text that a cell with the given formula would show**, if the formula stood outside the
sheet. -/
def Store.evaluate (s : Store) (volatile : Volatile → m Scalar) (source : String) : m String := do
  let program := Program.ofSource s.limits source
  let p ← Pass.visitAll s volatile {} (program.reads s)
  program.shown (p.source volatile)

end

end Spreadsheet
