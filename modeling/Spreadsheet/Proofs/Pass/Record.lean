import Spreadsheet.Proofs.Pass.Outcome

/-! # The record of a pass

A pass that keeps a record does the same turns and writes down which formulas it compiles and which
cells it finishes, with the texts it gives them: `Pass.Record`. Without the record it is the plain
pass (`Pass.Record.pass_visitAll`).

No formula is compiled and no cell finished twice: a formula that is compiled waits or is settled
from then on, and a cell that is finished is settled (`Pass.Record.Exact`). The counters of the pass
count what is on record. Every turn keeps this, whatever else it keeps
(`Pass.Record.satisfiesM_visitAll`). -/

namespace Spreadsheet.Pass

variable {s : Store} {next todo : List Address} {p q : Pass} {a b : Address} {text source : String}

/-- A pass with a record of what it has done, the latest first. -/
structure Record where
  pass : Pass := {}
  /-- The cells whose formulas have been compiled. -/
  compiled : List Address := []
  /-- The cells that have been finished, and the texts they were given. -/
  finished : List (Address × String) := []

namespace Record

/-- Finishes a cell with a text, and records it. -/
def settle (r : Record) (a : Address) (text : String) : Record :=
  { r with
    pass := r.pass.settle a text
    finished := (a, if r.pass.cyclic.contains a then Marker.cycle.text else text) :: r.finished }

/-- Compiles the formula of a cell and lets it wait, and records it. -/
def suspend (s : Store) (r : Record) (a : Address) (source : String) : Record :=
  { r with pass := r.pass.suspend s a source, compiled := a :: r.compiled }

/-- Starts on a cell as `Pass.enter` does. -/
def enter (s : Store) (r : Record) (a : Address) : Record :=
  match s.get? a with
  | none => r
  | some text =>
    if r.pass.settled.contains a then r
    else if r.pass.underway.contains a then { r with pass := r.pass.closeCycle a }
    else if isFormula text then r.suspend s a text
    else r.settle a text

theorem pass_enter (s : Store) (r : Record) (a : Address) :
    (r.enter s a).pass = r.pass.enter s a := by
  unfold enter Pass.enter
  cases s.get? a with
  | none => rfl
  | some text =>
    simp only [apply_ite Record.pass]
    rfl

section

variable {m : Type → Type} [Monad m]

/-- Goes on with the latest waiting formula as `Pass.drain` does. -/
def drain (s : Store) (volatile : Volatile → m Scalar) (r : Record) : m Record :=
  match _ : r.pass.waiting with
  | [] => pure r
  | f :: rest =>
    match _ : f.unread with
    | a :: unread =>
      drain s volatile
        (enter s { r with pass := { r.pass with waiting := { f with unread } :: rest } } a)
    | [] => do
      let text ← f.program.shown (r.pass.source volatile)
      drain s volatile
        (settle { r with pass := { r.pass with waiting := rest } } f.address text)
termination_by (r.pass.unvisited s, r.pass.steps)
decreasing_by
  · rw [pass_enter]
    exact measure_take s ‹_› ‹_›
  · exact measure_finish s ‹_› ‹_› text

/-- Visits a cell and all cells it reads. -/
def visit (s : Store) (volatile : Volatile → m Scalar) (r : Record) (a : Address) : m Record :=
  drain s volatile (r.enter s a)

def visitAll (s : Store) (volatile : Volatile → m Scalar) (r : Record) (as : List Address) :
    m Record :=
  as.foldlM (visit s volatile) r

/-! ### Without the record -/

variable [LawfulMonad m] {volatile : Volatile → m Scalar}

theorem pass_drain (r : Record) :
    Record.pass <$> r.drain s volatile = r.pass.drain s volatile := by
  fun_induction drain s volatile r with
  | case1 r hw => rw [map_pure, drain_nil hw]
  | case2 r f rest hw a unread hu ih => rw [ih, pass_enter, drain_take hw hu]
  | case3 r f rest hw hu ih =>
    rw [map_bind, drain_finish hw hu]
    exact bind_congr ih

/-- **A pass that keeps a record goes as the pass without one.** -/
theorem pass_visitAll (r : Record) (as : List Address) :
    Record.pass <$> r.visitAll s volatile as = r.pass.visitAll s volatile as := by
  induction as generalizing r with
  | nil => rw [visitAll, List.foldlM_nil, map_pure, Pass.visitAll, List.foldlM_nil]
  | cons a as ih =>
    rw [visitAll, List.foldlM_cons, map_bind, Pass.visitAll, List.foldlM_cons, Pass.visit,
      ← pass_enter, ← pass_drain, bind_map_left]
    exact bind_congr fun r => ih r

end

/-! ### What is on record -/

/-- The finished cells on record are the settled ones, each once, with the texts they show; and the
markers among these have been counted. -/
structure Finishes (r : Record) : Prop where
  nodup : (r.finished.map Prod.fst).Nodup
  mem_iff : ∀ a text, (a, text) ∈ r.finished ↔ r.pass.settled[a]? = some text
  errors : r.pass.errors = r.finished.countP fun e => (Marker.ofText? e.2).isSome

/-- The compiled formulas on record are those that wait or are settled, each once; and they have
been counted, and among them those that call a function that changes. -/
structure Compiles (s : Store) (r : Record) : Prop where
  nodup : r.compiled.Nodup
  mem_iff : ∀ a, a ∈ r.compiled ↔ (s.program? a).isSome ∧ (a ∈ r.pass.settled ∨ a ∈ r.pass.line)
  formulas : r.pass.formulas = r.compiled.length
  volatile : r.pass.volatile =
    r.compiled.countP fun a => (s.program? a).any Program.callsVolatile

theorem Finishes.settle {r : Record} (hs : a ∉ r.pass.settled) (h : r.Finishes) :
    (r.settle a text).Finishes where
  nodup := by
    refine List.nodup_cons.mpr ⟨fun hmem => ?_, h.nodup⟩
    obtain ⟨⟨b, shown⟩, hb, rfl⟩ := List.mem_map.mp hmem
    have hget := (h.mem_iff b shown).mp hb
    exact hs (Std.TreeMap.mem_iff_isSome_getElem?.mpr (by simp [hget]))
  mem_iff b shown := by
    have hget : (r.settle a text).pass.settled[b]? =
        if a = b then some (if a ∈ r.pass.cyclic then Marker.cycle.text else text)
        else r.pass.settled[b]? := getElem?_settle
    have hfinished : (r.settle a text).finished =
        (a, if r.pass.cyclic.contains a then Marker.cycle.text else text) :: r.finished := rfl
    simp only [Std.TreeSet.contains_iff_mem] at hfinished
    rw [hget, hfinished, List.mem_cons, Prod.mk.injEq, h.mem_iff]
    by_cases hab : a = b
    · subst hab
      have hnone : r.pass.settled[a]? = none := Std.TreeMap.getElem?_eq_none hs
      simp [hnone, eq_comm]
    · simp [hab, Ne.symm hab]
  errors := by
    show (if _ then r.pass.errors + 1 else r.pass.errors) = List.countP _ (_ :: r.finished)
    rw [h.errors, List.countP_cons]
    generalize (if r.pass.cyclic.contains a then Marker.cycle.text else text) = shown
    dsimp only
    split <;> rfl

/-- It does not matter who waits. -/
theorem Finishes.keep {r q : Record} (h : r.Finishes) (hfinished : q.finished = r.finished)
    (hsettled : q.pass.settled = r.pass.settled) (herrors : q.pass.errors = r.pass.errors) :
    q.Finishes where
  nodup := hfinished ▸ h.nodup
  mem_iff a text := by rw [hfinished, hsettled, h.mem_iff]
  errors := by rw [herrors, hfinished, h.errors]

namespace Compiles

theorem suspend {r : Record} (hs : a ∉ r.pass.settled) (hl : a ∉ r.pass.line)
    (ht : s.get? a = some text) (hf : isFormula text = true) (h : r.Compiles s) :
    (r.suspend s a text).Compiles s where
  nodup := List.nodup_cons.mpr ⟨fun hmem => by simpa [hs, hl] using (h.mem_iff a).mp hmem, h.nodup⟩
  mem_iff b := by
    show b ∈ a :: r.compiled ↔ (s.program? b).isSome ∧ (b ∈ r.pass.settled ∨ b ∈ a :: r.pass.line)
    rw [List.mem_cons, List.mem_cons, h.mem_iff]
    by_cases hba : b = a
    · simp [hba, Store.program?_formula ht hf]
    · simp [hba]
  formulas := congrArg (· + 1) h.formulas
  volatile := by
    have hprogram := Store.program?_formula ht hf
    show (if _ then r.pass.volatile + 1 else r.pass.volatile) =
      (a :: r.compiled).countP fun b => (s.program? b).any Program.callsVolatile
    rw [h.volatile, List.countP_cons, hprogram]
    split <;> simp [*]

theorem literal {r : Record} (ha : s.program? a = none) (h : r.Compiles s) :
    (r.settle a text).Compiles s where
  nodup := h.nodup
  mem_iff b := by
    show b ∈ r.compiled ↔ _ ∧ (b ∈ (r.pass.settle a text).settled ∨ b ∈ r.pass.line)
    rw [h.mem_iff, mem_settled_settle]
    refine and_congr_right fun hb => ?_
    have hab : a ≠ b := by
      rintro rfl
      simp [ha] at hb
    simp [hab]
  formulas := h.formulas
  volatile := h.volatile

theorem finish {r : Record} {f : Frame} {rest : List Frame} (hw : r.pass.waiting = f :: rest)
    (h : r.Compiles s) :
    (settle { r with pass := { r.pass with waiting := rest } } f.address text).Compiles s where
  nodup := h.nodup
  mem_iff b := by
    have hline : b ∈ r.pass.line ↔ b = f.address ∨ b ∈ rest.map Frame.address := by
      rw [line, hw, List.map_cons, List.mem_cons]
    show b ∈ r.compiled ↔ _ ∧
      (b ∈ (Pass.settle { r.pass with waiting := rest } f.address text).settled ∨
        b ∈ rest.map Frame.address)
    rw [h.mem_iff, hline, mem_settled_settle, eq_comm (a := b)]
    tauto
  formulas := h.formulas
  volatile := h.volatile

end Compiles

/-- **What is on record is exactly what the pass has done.** -/
structure Exact (s : Store) (r : Record) : Prop where
  finishes : r.Finishes
  compiles : r.Compiles s

namespace Exact

theorem initial : Exact s {} where
  finishes := ⟨List.nodup_nil, by simp, rfl⟩
  compiles := ⟨List.nodup_nil, by simp [line], rfl, rfl⟩

theorem take {r : Record} {f : Frame} {rest : List Frame} {unread : List Address}
    (hw : r.pass.waiting = f :: rest) (h : r.Exact s) :
    Exact s { r with pass := { r.pass with waiting := { f with unread } :: rest } } where
  finishes := h.finishes.keep rfl rfl rfl
  compiles := by
    have hline : line { r.pass with waiting := { f with unread } :: rest } = r.pass.line := by
      simp [line, hw]
    refine ⟨h.compiles.nodup, fun b => ?_, h.compiles.formulas, h.compiles.volatile⟩
    rw [hline]
    exact h.compiles.mem_iff b

theorem enter {r : Record} (hr : Sound s next r.pass) (h : r.Exact s) : (r.enter s a).Exact s := by
  unfold Record.enter
  cases ht : s.get? a with
  | none => exact h
  | some text =>
    dsimp only
    split
    · exact h
    · next hs =>
      split
      · exact ⟨h.finishes.keep rfl rfl rfl, h.compiles.nodup, h.compiles.mem_iff,
          h.compiles.formulas, h.compiles.volatile⟩
      · next hu =>
        have hl : a ∉ r.pass.line := mt (hr.underway_iff a).mpr (by simpa using hu)
        split
        · next hf =>
          exact ⟨h.finishes.keep rfl rfl rfl, h.compiles.suspend (by simpa using hs) hl ht hf⟩
        · next hf =>
          have hprogram := Store.program?_literal ht (by simpa using hf)
          exact ⟨h.finishes.settle (by simpa using hs), h.compiles.literal hprogram⟩

theorem finish {r : Record} {f : Frame} {rest : List Frame} (hw : r.pass.waiting = f :: rest)
    (hr : Sound s next r.pass) (h : r.Exact s) :
    (settle { r with pass := { r.pass with waiting := rest } } f.address text).Exact s where
  finishes := by
    have hs : f.address ∉ r.pass.settled := hr.unsettled _ (by simp [line, hw])
    have hkeep : Finishes { r with pass := { r.pass with waiting := rest } } :=
      h.finishes.keep rfl rfl rfl
    exact hkeep.settle hs
  compiles := h.compiles.finish hw

end Exact

section

variable {m : Type → Type} [Monad m] [LawfulMonad m] {volatile : Volatile → m Scalar}
  {Inv : List Address → List Address → Pass → Prop}

theorem satisfiesM_drain (hinv : Invariant s Inv)
    (hsound : ∀ {next todo p}, Inv next todo p → Sound s next p) {r : Record}
    (hr : Inv [] todo r.pass) (h : r.Exact s) :
    SatisfiesM (fun q => q.pass.waiting = [] ∧ Inv [] todo q.pass ∧ q.Exact s)
      (r.drain s volatile) := by
  fun_induction drain s volatile r with
  | case1 r hw => exact SatisfiesM.pure ⟨hw, hr, h⟩
  | case2 r f rest hw a unread hu ih =>
    have htake := hinv.take hw hu hr
    have hs : Sound s [a] { r.pass with waiting := { f with unread } :: rest } := hsound htake
    refine ih ?_ (Exact.enter hs (h.take hw))
    rw [pass_enter]
    exact hinv.enter (entered ..) htake
  | case3 r f rest hw hu ih =>
    refine SatisfiesM.bind (satisfiesM_shown r.pass f.program) fun text ht => ?_
    exact ih text (hinv.finish hw hu ht hr) (h.finish hw (hsound hr))

/-- **What every turn keeps holds in the end, and the record is exact.** -/
theorem satisfiesM_visitAll (hinv : Invariant s Inv)
    (hsound : ∀ {next todo p}, Inv next todo p → Sound s next p) {r : Record}
    (hw : r.pass.waiting = []) (hr : Inv [] todo r.pass) (h : r.Exact s) :
    SatisfiesM (fun q => q.pass.waiting = [] ∧ Inv [] [] q.pass ∧ q.Exact s)
      (r.visitAll s volatile todo) := by
  unfold visitAll
  induction todo generalizing r with
  | nil => exact SatisfiesM.pure ⟨hw, hr, h⟩
  | cons a todo ih =>
    rw [List.foldlM_cons]
    have hvisit := hinv.visit hw hr
    have hr' : Inv [] todo (r.enter s a).pass := by
      rw [pass_enter]
      exact hinv.enter (entered ..) hvisit
    have h' : (r.enter s a).Exact s := Exact.enter (hsound hvisit) h
    exact SatisfiesM.bind (satisfiesM_drain hinv hsound hr' h') fun q hq => ih hq.1 hq.2.1 hq.2.2

/-- **A pass that keeps a record ends complete, with an exact record.** -/
theorem satisfiesM_complete (s : Store) (volatile : Volatile → m Scalar) (roots : List Address) :
    SatisfiesM (fun q => q.pass.waiting = [] ∧ Complete s roots q.pass ∧ q.Exact s)
      (visitAll s volatile {} roots) := by
  have hstart : (Tracked s roots [] roots {} ∧ Shows s ∅ ∅) ∧ Covers s roots [] roots {} :=
    ⟨⟨Tracked.initial, Shows.initial⟩, fun a ha _ => Or.inr (Or.inl ha)⟩
  have hend : SatisfiesM _ (visitAll s volatile {} roots) :=
    satisfiesM_visitAll Pass.invariant (fun h => h.1.1.toSound) rfl hstart Exact.initial
  refine hend.imp fun {q} ⟨hw, ⟨⟨ht, hs⟩, hc⟩, hexact⟩ => ?_
  exact ⟨hw, Complete.of_invariants hw ht hs hc, hexact⟩

end

end Record

end Spreadsheet.Pass
