import Mathlib
import Spreadsheet.Proofs.Program.Reading
import Spreadsheet.Proofs.Sheet.Reads

/-! # The turns of a pass

What a pass does when it starts on a cell (`Pass.Entered`) and when it finishes one, and what
therefore holds in the end: an `Pass.Invariant` is kept by every turn, and so
`Pass.Invariant.satisfiesM_visitAll` gives it for the finished pass, whatever the functions that
change answer. -/

namespace Spreadsheet.Pass

open Std

variable {s : Store} {p : Pass} {a b : Address} {text : String}

/-- The cells that wait, the latest first. -/
def line (p : Pass) : List Address := p.waiting.map Frame.address

/-! ### What finishing, suspending and closing a cycle change -/

@[simp] theorem waiting_settle : (p.settle a text).waiting = p.waiting := rfl

@[simp] theorem cyclic_settle : (p.settle a text).cyclic = p.cyclic := rfl

@[simp] theorem line_settle : (p.settle a text).line = p.line := rfl

theorem getElem?_settle : (p.settle a text).settled[b]? =
    if a = b then some (if a ∈ p.cyclic then Marker.cycle.text else text) else p.settled[b]? := by
  simp only [settle, TreeMap.getElem?_insert, TreeSet.contains_iff_mem,
    LawfulEqCmp.compare_eq_iff_eq]

@[simp] theorem mem_settled_settle : b ∈ (p.settle a text).settled ↔ a = b ∨ b ∈ p.settled := by
  simp only [settle, TreeMap.mem_insert, LawfulEqCmp.compare_eq_iff_eq]

@[simp] theorem mem_underway_settle :
    b ∈ (p.settle a text).underway ↔ a ≠ b ∧ b ∈ p.underway := by
  simp only [settle, TreeSet.mem_erase, LawfulEqCmp.compare_eq_iff_eq, ne_eq]

@[simp] theorem waiting_closeCycle : (p.closeCycle a).waiting = p.waiting := rfl

@[simp] theorem settled_closeCycle : (p.closeCycle a).settled = p.settled := rfl

@[simp] theorem underway_closeCycle : (p.closeCycle a).underway = p.underway := rfl

@[simp] theorem line_closeCycle : (p.closeCycle a).line = p.line := rfl

theorem mem_foldl_insert {l : List Address} {set : TreeSet Address} :
    b ∈ l.foldl (fun set b => set.insert b) set ↔ b ∈ l ∨ b ∈ set := by
  induction l generalizing set with
  | nil => simp
  | cons c l ih =>
    simp only [List.foldl_cons, ih, TreeSet.mem_insert, LawfulEqCmp.compare_eq_iff_eq,
      List.mem_cons]
    tauto

theorem mem_cyclic_closeCycle : b ∈ (p.closeCycle a).cyclic ↔ b ∈ p.chainTo a ∨ b ∈ p.cyclic :=
  mem_foldl_insert

@[simp] theorem settled_suspend : (p.suspend s a text).settled = p.settled := rfl

@[simp] theorem cyclic_suspend : (p.suspend s a text).cyclic = p.cyclic := rfl

@[simp] theorem waiting_suspend : (p.suspend s a text).waiting =
    ⟨a, Program.ofSource s.limits text, (Program.ofSource s.limits text).reads s⟩ ::
      p.waiting := rfl

@[simp] theorem line_suspend : (p.suspend s a text).line = a :: p.line := rfl

@[simp] theorem mem_underway_suspend :
    b ∈ (p.suspend s a text).underway ↔ a = b ∨ b ∈ p.underway := by
  simp only [suspend, TreeSet.mem_insert, LawfulEqCmp.compare_eq_iff_eq]

/-! ### Starting on a cell -/

/-- What starting on the cell `a` makes of the pass `p`. -/
inductive Entered (s : Store) (p : Pass) (a : Address) : Pass → Prop
  | skip (h : s.get? a = none ∨ a ∈ p.settled) : Entered s p a p
  | loop (hs : a ∉ p.settled) (hu : a ∈ p.underway) : Entered s p a (p.closeCycle a)
  | formula {text : String} (hs : a ∉ p.settled) (hu : a ∉ p.underway)
      (ht : s.get? a = some text) (hf : isFormula text = true) : Entered s p a (p.suspend s a text)
  | literal {text : String} (hs : a ∉ p.settled) (hu : a ∉ p.underway)
      (ht : s.get? a = some text) (hf : isFormula text = false) : Entered s p a (p.settle a text)

theorem entered (s : Store) (p : Pass) (a : Address) : Entered s p a (p.enter s a) := by
  unfold enter
  split
  · next h => exact .skip (.inl h)
  · next text ht =>
    split
    · next h => exact .skip (.inr h)
    · next hs =>
      split
      · next hu => exact .loop hs hu
      · next hu =>
        split
        · next hf => exact .formula hs hu ht hf
        · next hf => exact .literal hs hu ht (by simpa using hf)

/-! ### Invariants -/

section

variable {m : Type → Type} [Monad m] [LawfulMonad m] {volatile : Volatile → m Scalar}

/-- The text that a waiting formula gets, unless it calls a function that changes. -/
theorem satisfiesM_shown (p : Pass) (q : Program) :
    SatisfiesM (fun text => q.callsVolatile = false → text = q.shownFrom p.reading)
      (q.shown (p.source volatile)) := by
  by_cases h : q.callsVolatile = false
  · have hshown : q.shown (p.source volatile) = pure (q.shownFrom p.reading) :=
      Program.shown_eq_pure (fun a _ => rfl) h
    rw [hshown]
    exact SatisfiesM.pure fun _ => rfl
  · exact SatisfiesM.of_true fun _ hq => absurd hq h

/-- An invariant of a pass: every turn keeps it. It may speak of the cells `next` that the pass is
about to start on and of the cells `todo` that it visits after the waiting formulas. -/
structure Invariant (s : Store) (Inv : List Address → List Address → Pass → Prop) : Prop where
  visit : ∀ {a todo p}, p.waiting = [] → Inv [] (a :: todo) p → Inv [a] todo p
  take : ∀ {f rest a unread todo p}, p.waiting = f :: rest → f.unread = a :: unread →
    Inv [] todo p → Inv [a] todo { p with waiting := { f with unread } :: rest }
  enter : ∀ {a todo p q}, Entered s p a q → Inv [a] todo p → Inv [] todo q
  finish : ∀ {f rest text todo p}, p.waiting = f :: rest → f.unread = [] →
    (f.program.callsVolatile = false → text = f.program.shownFrom p.reading) →
    Inv [] todo p → Inv [] todo (settle { p with waiting := rest } f.address text)

namespace Invariant

variable {Inv : List Address → List Address → Pass → Prop} {todo : List Address}

theorem satisfiesM_drain (h : Invariant s Inv) (hp : Inv [] todo p) :
    SatisfiesM (fun q => q.waiting = [] ∧ Inv [] todo q) (drain s volatile p) := by
  fun_induction drain s volatile p with
  | case1 p hw => exact SatisfiesM.pure ⟨hw, hp⟩
  | case2 p f rest hw a unread hu ih => exact ih (h.enter (entered ..) (h.take hw hu hp))
  | case3 p f rest hw hu ih =>
    refine SatisfiesM.bind (satisfiesM_shown p f.program) fun text ht => ?_
    exact ih text (h.finish hw hu ht hp)

/-- **What every turn keeps holds in the end.** -/
theorem satisfiesM_visitAll (h : Invariant s Inv) (hw : p.waiting = []) (hp : Inv [] todo p) :
    SatisfiesM (fun q => q.waiting = [] ∧ Inv [] [] q) (visitAll s volatile p todo) := by
  unfold visitAll
  induction todo generalizing p with
  | nil => exact SatisfiesM.pure ⟨hw, hp⟩
  | cons a todo ih =>
    rw [List.foldlM_cons]
    have hq : Inv [] todo (p.enter s a) := h.enter (entered ..) (h.visit hw hp)
    exact SatisfiesM.bind (h.satisfiesM_drain hq) fun q hq => ih hq.1 hq.2

end Invariant

end

end Spreadsheet.Pass
