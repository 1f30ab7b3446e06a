import Spreadsheet.Proofs.Pass.Cycles

/-! # The texts that a pass settles

A settled cell shows its own text if it has no formula and the marker of a cycle if it is marked.
Any other formula was given its text when all it reads was settled, and since no settled text
changes any more, that text is what the formula makes of the settled texts: `Pass.Shows`. -/

namespace Spreadsheet

/-- What the cells pass on if they show the given texts; a cell that shows none is empty. -/
def viewOf (shown : Std.TreeMap Address String) (a : Address) : Scalar :=
  match shown[a]? with
  | some text => .ofShown text
  | none => .empty

namespace Pass

open Relation

variable {s : Store} {roots next todo : List Address} {p q : Pass} {a b : Address}
  {text raw : String} {f : Frame} {rest : List Frame}

/-- The first cell is read by the second one, which is not marked. -/
def ReadByUnmarked (s : Store) (cyclic : Std.TreeSet Address) (b a : Address) : Prop :=
  s.Reads a b ∧ a ∉ cyclic

/-- **What the settled cells show.** -/
structure Shows (s : Store) (shown : Std.TreeMap Address String) (cyclic : Std.TreeSet Address) :
    Prop where
  literal : ∀ a ∈ shown, ∀ raw, s.get? a = some raw → isFormula raw = false → shown[a]? = some raw
  marked : ∀ a ∈ shown, a ∈ cyclic → shown[a]? = some Marker.cycle.text
  reads : ∀ a ∈ shown, a ∉ cyclic → ∀ b, s.Reads a b → b ∈ shown
  formula : ∀ a ∈ shown, a ∉ cyclic → ∀ program, s.program? a = some program →
    program.callsVolatile = false → shown[a]? = some (program.shownFrom (viewOf shown))
  grounded : ∀ a ∈ shown, Acc (ReadByUnmarked s cyclic) a

/-! ### Settling one more cell -/

theorem viewOf_settle (hab : a ≠ b) : viewOf (p.settle a text).settled b = viewOf p.settled b := by
  rw [viewOf, viewOf, getElem?_settle, if_neg hab]

/-- A formula whose cells are settled does not see that another cell is settled. -/
theorem shownFrom_settle {program : Program} (hs : a ∉ p.settled) (ha : (s.get? a).isSome)
    (hreads : ∀ b ∈ program.reads s, b ∈ p.settled) (hp : program.callsVolatile = false) :
    program.shownFrom (viewOf (p.settle a text).settled) =
      program.shownFrom (viewOf p.settled) := by
  refine Program.shownFrom_congr (fun b hb => viewOf_settle ?_) hp
  rintro rfl
  exact hs (hreads a (Store.mem_reads.mpr ⟨hb, ha⟩))

namespace Shows

theorem initial : Shows s ∅ ∅ := ⟨by simp, by simp, by simp, by simp, by simp⟩

theorem settle (hs : a ∉ p.settled) (ht : s.get? a = some raw)
    (hliteral : isFormula raw = false → a ∉ p.cyclic ∧ text = raw)
    (hreads : a ∉ p.cyclic → ∀ b, s.Reads a b → b ∈ p.settled)
    (hformula : a ∉ p.cyclic → ∀ program, s.program? a = some program →
      program.callsVolatile = false → text = program.shownFrom (viewOf p.settled))
    (h : Shows s p.settled p.cyclic) : Shows s (p.settle a text).settled p.cyclic := by
  have hstored : (s.get? a).isSome := by simp [ht]
  -- the texts settled before stay
  have hold : ∀ b ∈ p.settled, (p.settle a text).settled[b]? = p.settled[b]? := by
    intro b hb
    rw [getElem?_settle, if_neg (ne_of_mem_of_not_mem hb hs).symm]
  have hreads' : ∀ b ∈ (p.settle a text).settled, b ∉ p.cyclic →
      ∀ c, s.Reads b c → c ∈ p.settled := by
    intro b hb hm c hc
    rcases mem_settled_settle.mp hb with rfl | hb
    · exact hreads hm c hc
    · exact h.reads b hb hm c hc
  constructor
  case literal =>
    intro b hb raw' ht' hf
    rcases mem_settled_settle.mp hb with rfl | hb
    · obtain rfl : raw = raw' := by simpa [ht] using ht'
      rw [getElem?_settle, if_pos rfl, if_neg (hliteral hf).1, (hliteral hf).2]
    · rw [hold b hb, h.literal b hb raw' ht' hf]
  case marked =>
    intro b hb hm
    rcases mem_settled_settle.mp hb with rfl | hb
    · rw [getElem?_settle, if_pos rfl, if_pos hm]
    · rw [hold b hb, h.marked b hb hm]
  case reads =>
    exact fun b hb hm c hc => mem_settled_settle.mpr (Or.inr (hreads' b hb hm c hc))
  case formula =>
    intro b hb hm program hprogram hvolatile
    have hsettled : ∀ c ∈ program.reads s, c ∈ p.settled := fun c hc =>
      hreads' b hb hm c (by rwa [Store.Reads, Store.readsOf_program hprogram])
    rw [shownFrom_settle hs hstored hsettled hvolatile]
    rcases mem_settled_settle.mp hb with rfl | hb
    · rw [getElem?_settle, if_pos rfl, if_neg hm, hformula hm program hprogram hvolatile]
    · rw [hold b hb, h.formula b hb hm program hprogram hvolatile]
  case grounded =>
    intro b hb
    rcases mem_settled_settle.mp hb with rfl | hb
    · exact Acc.intro a fun c hc => h.grounded c (hreads hc.2 c hc.1)
    · exact h.grounded b hb

theorem closeCycle (hchain : ∀ b ∈ p.chainTo a, b ∉ p.settled) (h : Shows s p.settled p.cyclic) :
    Shows s p.settled (p.closeCycle a).cyclic := by
  have hmark : ∀ b ∈ p.settled, b ∈ (p.closeCycle a).cyclic → b ∈ p.cyclic := fun b hb hm =>
    (mem_cyclic_closeCycle.mp hm).resolve_left fun hbc => hchain b hbc hb
  have hunmark : ∀ b, b ∉ (p.closeCycle a).cyclic → b ∉ p.cyclic := fun b =>
    mt fun hm => mem_cyclic_closeCycle.mpr (Or.inr hm)
  constructor
  case literal => exact h.literal
  case marked => exact fun b hb hm => h.marked b hb (hmark b hb hm)
  case reads => exact fun b hb hm => h.reads b hb (hunmark b hm)
  case formula => exact fun b hb hm => h.formula b hb (hunmark b hm)
  case grounded =>
    exact fun b hb => Subrelation.accessible (fun hcd => ⟨hcd.1, hunmark _ hcd.2⟩) (h.grounded b hb)

end Shows

/-! ### The turns -/

theorem Sound.isSome_of_mem_line (h : Sound s next p) (ha : a ∈ p.line) : (s.get? a).isSome := by
  obtain ⟨f, hf, rfl⟩ := List.mem_map.mp ha
  exact Store.isSome_of_program? (h.program f hf)

/-- Where no cell without a text is settled or waits, and all cells with a text are settled that a
formula reads, it reads the settled texts. -/
theorem Sound.shownFrom_reading {program : Program} (h : Sound s next p)
    (hreads : ∀ b ∈ program.reads s, b ∈ p.settled) (hp : program.callsVolatile = false) :
    program.shownFrom p.reading = program.shownFrom (viewOf p.settled) := by
  refine Program.shownFrom_congr (fun b hb => ?_) hp
  unfold reading viewOf
  cases hs : p.settled[b]? with
  | some text => rfl
  | none =>
    have hb' : b ∉ p.settled := by simp [Std.TreeMap.mem_iff_isSome_getElem?, hs]
    have hu : b ∉ p.underway := fun hu => by
      have hstored := h.isSome_of_mem_line ((h.underway_iff b).mp hu)
      exact hb' (hreads b (Store.mem_reads.mpr ⟨hb, hstored⟩))
    dsimp only
    rw [if_neg (by simpa using hu)]

theorem Tracked.reads_of_unmarked (hw : p.waiting = f :: rest) (hu : f.unread = [])
    (h : Tracked s roots [] todo p) (hm : f.address ∉ p.cyclic) (hb : s.Reads f.address b) :
    b ∈ p.settled := by
  obtain ⟨finished, hf⟩ := h.waits [] f rest hw
  simpa [hu] using (hf.closed hm).waiting f List.mem_cons_self b hb

theorem Shows.invariant : Invariant s fun next todo p =>
    Tracked s roots next todo p ∧ Shows s p.settled p.cyclic where
  visit hw h := ⟨h.1.visit hw, h.2⟩
  take hw hu h := ⟨h.1.take hw hu, h.2⟩
  enter {a todo p q} he h := by
    refine ⟨h.1.enter he, ?_⟩
    cases he with
    | skip => exact h.2
    | loop hs hu =>
      have ha : a ∈ p.line := (h.1.underway_iff a).mp hu
      exact h.2.closeCycle fun b hb => h.1.unsettled b (Sound.mem_line_of_mem_chainTo hb ha)
    | formula => exact h.2
    | @literal text hs hu ht hf =>
      have hprogram := Store.program?_literal ht hf
      refine h.2.settle hs ht (fun _ => ⟨h.1.unmarked hs hu, rfl⟩) (fun _ b hb => ?_)
        fun _ program hp => ?_
      · obtain ⟨program, hp, -⟩ := hb.program?
        rw [hprogram] at hp
        cases hp
      · rw [hprogram] at hp
        cases hp
  finish {f rest text todo p} hw hu htext h := by
    refine ⟨h.1.finish hw hu, ?_⟩
    have hline : f.address ∈ p.line := by simp [line, hw]
    have hprogram : s.program? f.address = some f.program := h.1.program f (by simp [hw])
    have hreads : f.address ∉ p.cyclic → ∀ b, s.Reads f.address b → b ∈ p.settled :=
      fun hm b => h.1.reads_of_unmarked hw hu hm
    obtain ⟨raw, ht, -⟩ := Option.bind_eq_some_iff.mp hprogram
    refine Shows.settle (p := { p with waiting := rest }) (h.1.unsettled _ hline) ht (fun hf => ?_)
      hreads (fun hm program hp hvolatile => ?_) h.2
    · rw [Store.program?_literal ht hf] at hprogram
      cases hprogram
    · obtain rfl : f.program = program := by simpa [hprogram] using hp
      rw [htext hvolatile]
      refine h.1.shownFrom_reading (fun b hb => hreads hm b ?_) hvolatile
      rwa [Store.Reads, Store.readsOf_program hprogram]

end Pass

end Spreadsheet
