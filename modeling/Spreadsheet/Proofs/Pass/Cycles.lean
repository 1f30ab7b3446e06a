import Spreadsheet.Proofs.Pass.Line
import Spreadsheet.Proofs.Sheet.Walk

/-! # The cycles that a pass finds

A pass goes the way of a depth-first walk (`Pass.Follows`). While a formula waits, all that is
settled after it has been reached is read on behalf of it, so when it gets its text without a
mark, no cell among these leads back to it: `Pass.Closed.not_onCycleOutside`. A reading that
closes a cycle marks the waiting cells on it, which the line links to each other:
`Pass.Sound.onCycleOutside_of_loop`. Together the marks are what the walk finds: `Pass.Tracked`.
-/

namespace Spreadsheet.Pass

open Relation

variable {s : Store} {roots next todo : List Address} {p q : Pass} {a b : Address} {text : String}
  {f : Frame} {rest : List Frame} {finished : List Address}

/-! ### The way of a pass -/

/-- What a pass is still to do, if it is about to start on `next` and goes to `todo` at last. -/
def agenda (p : Pass) (next todo : List Address) : List Task :=
  next.map .visit ++ (p.waiting.flatMap fun f => f.unread.map .visit ++ [.finish f.address]) ++
    todo.map .visit

/-- The pass has come where the walk to `roots` comes. -/
def Follows (s : Store) (roots next todo : List Address) (p : Pass) : Prop :=
  ∃ finished, Walk.Reached s roots ⟨p.agenda next todo, finished⟩ ∧
    ∀ a, a ∈ finished ↔ a ∈ p.settled

theorem agenda_cons : p.agenda (a :: next) todo = .visit a :: p.agenda next todo := rfl

theorem agenda_of_waiting (hw : p.waiting = f :: rest) : p.agenda [] todo =
    f.unread.map .visit ++ .finish f.address :: agenda { p with waiting := rest } [] todo := by
  simp [agenda, hw]

theorem finish_mem_agenda : .finish a ∈ p.agenda next todo ↔ a ∈ p.line := by
  simp [agenda, line, eq_comm]

theorem skips_iff (hp : Sound s next p) (hfin : ∀ a, a ∈ finished ↔ a ∈ p.settled) :
    Walk.Skips s (p.agenda [] todo) finished a ↔
      s.get? a = none ∨ a ∈ p.settled ∨ a ∈ p.underway := by
  rw [Walk.Skips, hfin, finish_mem_agenda, hp.underway_iff]

namespace Follows

theorem initial : Follows s roots [] roots {} :=
  ⟨[], by simpa [agenda, Walk.start] using Walk.reached_start, by simp⟩

theorem visit (hw : p.waiting = []) (h : Follows s roots [] (a :: todo) p) :
    Follows s roots [a] todo p := by
  simpa [Follows, agenda, hw] using h

theorem take {unread : List Address} (hw : p.waiting = f :: rest) (hu : f.unread = a :: unread)
    (h : Follows s roots [] todo p) :
    Follows s roots [a] todo { p with waiting := { f with unread } :: rest } := by
  simpa [Follows, agenda, hw, hu] using h

theorem enter (he : Entered s p a q) (hp : Sound s [a] p) (h : Follows s roots [a] todo p) :
    Follows s roots [] todo q := by
  obtain ⟨finished, hr, hfin⟩ := h
  rw [agenda_cons] at hr
  have hstep := hr.step
  have hskips : Walk.Skips s (p.agenda [] todo) finished a ↔
      s.get? a = none ∨ a ∈ p.settled ∨ a ∈ p.underway := skips_iff hp hfin
  cases he with
  | skip hskip =>
    rw [Walk.step_skip (hskips.mpr (by tauto))] at hstep
    exact ⟨finished, hstep, hfin⟩
  | loop hs hu =>
    rw [Walk.step_skip (hskips.mpr (by tauto))] at hstep
    exact ⟨finished, hstep, hfin⟩
  | @formula text hs hu ht hf =>
    rw [Walk.step_visit (mt hskips.mp (by simp [hs, hu, ht])),
      Store.readsOf_program (Store.program?_formula ht hf)] at hstep
    exact ⟨finished, by simpa [agenda] using hstep, hfin⟩
  | @literal text hs hu ht hf =>
    -- the walk finishes the cell one step later
    rw [Walk.step_visit (mt hskips.mp (by simp [hs, hu, ht])),
      Store.readsOf_literal (Store.program?_literal ht hf)] at hstep
    refine ⟨a :: finished, hstep.step, fun b => ?_⟩
    rw [mem_settled_settle, List.mem_cons, hfin, eq_comm]

theorem finish (hw : p.waiting = f :: rest) (hu : f.unread = []) (h : Follows s roots [] todo p) :
    Follows s roots [] todo (settle { p with waiting := rest } f.address text) := by
  obtain ⟨finished, hr, hfin⟩ := h
  rw [agenda_of_waiting hw, hu] at hr
  refine ⟨f.address :: finished, hr.step, fun b => ?_⟩
  rw [mem_settled_settle, List.mem_cons, hfin, eq_comm]

/-- A cell that is neither finished nor waiting is gone to for the first time. -/
theorem arrives (hp : Sound s [a] p) (h : Follows s roots [a] todo p) (hs : a ∉ p.settled)
    (hu : a ∉ p.underway) (ht : s.get? a = some text) :
    ∃ finished, Walk.Arrives s roots a finished ∧ ∀ b, b ∈ finished ↔ b ∈ p.settled := by
  obtain ⟨finished, hr, hfin⟩ := h
  exact ⟨finished, ⟨p.agenda [] todo, hr, mt (skips_iff hp hfin).mp (by simp [hs, hu, ht])⟩, hfin⟩

end Follows

/-! ### Closing a cycle -/

/-- The cells marked with `a` are those from the latest waiting one back to `a`. -/
theorem mem_chainTo_iff {later earlier : List Address} (hline : p.line = later ++ b :: earlier)
    (hnodup : p.line.Nodup) (ha : a ∈ p.line) : b ∈ p.chainTo a ↔ a ∉ later := by
  have hb : b ∉ later := by
    rw [hline, List.nodup_append] at hnodup
    exact fun hb => hnodup.2.2 b hb b List.mem_cons_self rfl
  rw [chainTo, ← line, hline, List.mem_cons]
  constructor
  · rintro (rfl | hmem) hla
    · exact hb hla
    · -- the cells up to `a` are among the later ones
      rw [List.takeWhile_append, if_neg] at hmem
      · exact hb ((List.takeWhile_sublist _).subset hmem)
      · intro hlen
        have := List.mem_takeWhile_imp (((List.takeWhile_sublist _).eq_of_length hlen).symm ▸ hla)
        simp at this
  · intro hla
    rcases eq_or_ne b a with hba | hba
    · exact Or.inl hba
    · refine Or.inr ?_
      rw [List.takeWhile_append_of_pos fun c hc => by simpa using ne_of_mem_of_not_mem hc hla,
        List.takeWhile_cons_of_pos (by simpa using hba)]
      simp

namespace Sound

/-- Each cell that waits leads to the later ones, past no cell that is settled. -/
theorem pairwise_line (h : Sound s next p) (hfin : ∀ a ∈ finished, a ∈ p.settled) :
    p.line.Pairwise fun b a => TransGen (s.ReadsOutside finished) a b := by
  let R (b a : Address) : Prop := TransGen (s.ReadsOutside finished) a b
  have : Trans R R R := ⟨fun hba hcb => TransGen.trans hcb hba⟩
  have hchain : p.line.IsChain R := h.linked.imp_of_mem_imp fun b a hb _ hab =>
    TransGen.single ⟨hab, fun hbf => h.unsettled b hb (hfin b hbf)⟩
  exact hchain.pairwise

/-- **A cell marked when a cycle closes lies on a cycle**, past no cell that is settled. -/
theorem onCycleOutside_of_loop (h : Sound s [a] p) (hfin : ∀ a ∈ finished, a ∈ p.settled)
    {later earlier : List Address} (hline : p.line = later ++ b :: earlier) (ha : a ∈ p.line)
    (hla : a ∉ later) : s.OnCycleOutside finished b := by
  have hpair := h.pairwise_line hfin
  rw [hline, List.pairwise_append, List.pairwise_cons] at hpair
  obtain ⟨-, ⟨hearlier, -⟩, hlater⟩ := hpair
  -- from `b` the line leads to the latest cell, from there the reading to `a`, and on to `b`
  have hclose : TransGen (s.ReadsOutside finished) b a := by
    have haf : a ∉ finished := fun haf => h.unsettled a ha (hfin a haf)
    cases later with
    | nil => exact TransGen.single ⟨h.next_read b (by simp [hline]) a List.mem_cons_self, haf⟩
    | cons c later =>
      have hca : s.Reads c a := h.next_read c (by simp [hline]) a List.mem_cons_self
      exact (hlater c List.mem_cons_self b List.mem_cons_self).tail ⟨hca, haf⟩
  rw [hline, List.mem_append] at ha
  rcases List.mem_cons.mp (ha.resolve_left hla) with rfl | hae
  · exact hclose
  · exact hclose.trans (hearlier a hae)

end Sound

/-- **A formula that gets its text without a mark lies on no cycle** of cells that were not settled
when it was reached. -/
theorem Closed.not_onCycleOutside (hu : f.unread = []) (hs : f.address ∉ p.settled)
    (h : Closed s [] p finished [f] []) : ¬ s.OnCycleOutside finished f.address := by
  intro hc
  -- a path from the formula never leaves what has been settled since
  have hpath : ∀ b, TransGen (s.ReadsOutside finished) f.address b → b ∈ p.settled := by
    intro b hb
    induction hb with
    | single hb => simpa [hu] using h.waiting f List.mem_cons_self _ hb.1
    | @tail b c hb hbc ih =>
      obtain ⟨d, -, hdb⟩ := TransGen.tail'_iff.mp hb
      simpa using h.settled b ih hdb.2 c hbc.1
  exact hs (hpath _ hc)

/-! ### The marks -/

/-- The formula `f` has been reached when the cells `finished` were settled, and the formulas
`later` have been reached for it since. -/
structure WaitsSince (s : Store) (roots next : List Address) (p : Pass) (later : List Frame)
    (f : Frame) (finished : List Address) : Prop where
  arrives : Walk.Arrives s roots f.address finished
  settled : ∀ a ∈ finished, a ∈ p.settled
  onCycle : f.address ∈ p.cyclic → s.OnCycleOutside finished f.address
  closed : f.address ∉ p.cyclic →
    Closed s next p finished (later ++ [f]) (later.map Frame.address)

/-- **The marks of a pass are what the walk finds**: a settled cell is marked exactly if the walk to
`roots` finds it on a cycle, and what is known of a waiting cell is enough to go on. -/
structure Tracked (s : Store) (roots next todo : List Address) (p : Pass) : Prop
    extends Sound s next p where
  follows : Follows s roots next todo p
  waits : ∀ later f earlier, p.waiting = later ++ f :: earlier →
    ∃ finished, WaitsSince s roots next p later f finished
  found : ∀ a ∈ p.settled, (a ∈ p.cyclic ↔ Walk.Finds s roots a)

namespace Tracked

theorem initial : Tracked s roots [] roots {} where
  toSound := Sound.initial
  follows := Follows.initial
  waits := by simp
  found := by simp

theorem visit (hw : p.waiting = []) (h : Tracked s roots [] (a :: todo) p) :
    Tracked s roots [a] todo p where
  toSound := h.toSound.visit hw
  follows := h.follows.visit hw
  waits := by simp [hw]
  found := h.found

theorem take {unread : List Address} (hw : p.waiting = f :: rest) (hu : f.unread = a :: unread)
    (h : Tracked s roots [] todo p) :
    Tracked s roots [a] todo { p with waiting := { f with unread } :: rest } where
  toSound := h.toSound.take hw hu
  follows := h.follows.take hw hu
  waits := by
    intro later g earlier hg
    rcases List.cons_eq_append_iff.mp hg with ⟨rfl, htop⟩ | ⟨later, rfl, hbelow⟩
    · cases htop
      obtain ⟨finished, hf⟩ := h.waits [] f rest hw
      exact ⟨finished, hf.arrives, hf.settled, hf.onCycle, fun hm => (hf.closed hm).take hu⟩
    · obtain ⟨finished, hf⟩ := h.waits (f :: later) g earlier (by rw [hw, hbelow]; rfl)
      exact ⟨finished, hf.arrives, hf.settled, hf.onCycle, fun hm => (hf.closed hm).take hu⟩
  found := h.found

theorem loop (hu : a ∈ p.underway) (h : Tracked s roots [a] todo p) :
    (∀ later f earlier, p.waiting = later ++ f :: earlier →
      ∃ finished, WaitsSince s roots [] (p.closeCycle a) later f finished) ∧
    ∀ b ∈ p.settled, (b ∈ (p.closeCycle a).cyclic ↔ Walk.Finds s roots b) := by
  have ha : a ∈ p.line := (h.underway_iff a).mp hu
  constructor
  · intro later g earlier hg
    obtain ⟨finished, hf⟩ := h.waits later g earlier hg
    have hline : p.line = later.map Frame.address ++ g.address :: earlier.map Frame.address := by
      simp [line, hg]
    have hchain := mem_chainTo_iff hline h.nodup ha
    refine ⟨finished, hf.arrives, hf.settled, fun hm => ?_, fun hm => ?_⟩
    · rcases mem_cyclic_closeCycle.mp hm with hm | hm
      · exact h.onCycleOutside_of_loop hf.settled hline ha (hchain.mp hm)
      · exact hf.onCycle hm
    · -- the cell stays unmarked, so the cycle closes among the later ones
      have hla : a ∈ later.map Frame.address := by
        by_contra hla
        exact hm (mem_cyclic_closeCycle.mpr (Or.inl (hchain.mpr hla)))
      exact (hf.closed fun hmg => hm (mem_cyclic_closeCycle.mpr (Or.inr hmg))).loop hla
  · intro b hb
    rw [← h.found b hb, mem_cyclic_closeCycle]
    refine or_iff_right fun hbc => h.unsettled b ?_ hb
    exact Sound.mem_line_of_mem_chainTo hbc ha

theorem enter (he : Entered s p a q) (h : Tracked s roots [a] todo p) :
    Tracked s roots [] todo q := by
  have hsound := h.toSound.enter he
  have hfollows := h.follows.enter he h.toSound
  cases he with
  | skip hskip =>
    refine ⟨hsound, hfollows, fun later g earlier hg => ?_, h.found⟩
    obtain ⟨finished, hf⟩ := h.waits later g earlier hg
    exact ⟨finished, hf.arrives, hf.settled, hf.onCycle, fun hm => (hf.closed hm).skip hskip⟩
  | loop hs hu => exact ⟨hsound, hfollows, (h.loop hu).1, (h.loop hu).2⟩
  | @formula text hs hu ht hf =>
    obtain ⟨finished, harrives, hfin⟩ := h.follows.arrives h.toSound hs hu ht
    have hunmarked : a ∉ p.cyclic := h.unmarked hs hu
    have hnew : ∀ b, s.Reads a b → b ∈ (Program.ofSource s.limits text).reads s := fun b hb => by
      rwa [Store.Reads, Store.readsOf_program (Store.program?_formula ht hf)] at hb
    refine ⟨hsound, hfollows, fun later g earlier hg => ?_, h.found⟩
    rcases List.cons_eq_append_iff.mp hg with ⟨rfl, htop⟩ | ⟨later, rfl, hbelow⟩
    · cases htop
      refine ⟨finished, harrives, fun b => (hfin b).mp, fun hm => absurd hm hunmarked, fun _ => ?_⟩
      refine ⟨fun b hb hbf => absurd ((hfin b).mpr hb) hbf, fun g hg b hb => ?_⟩
      obtain rfl := List.mem_singleton.mp hg
      exact Or.inr (Or.inl (hnew b hb))
    · obtain ⟨finished, hf⟩ := h.waits later g earlier hbelow
      exact ⟨finished, hf.arrives, hf.settled, hf.onCycle, fun hm =>
        Closed.suspend (f := ⟨a, _, (Program.ofSource s.limits text).reads s⟩) hnew (hf.closed hm)⟩
  | @literal text hs hu ht hf =>
    obtain ⟨finished, harrives, -⟩ := h.follows.arrives h.toSound hs hu ht
    have hprogram := Store.program?_literal ht hf
    refine ⟨hsound, hfollows, fun later g earlier hg => ?_, fun b hb => ?_⟩
    · obtain ⟨finished, hf⟩ := h.waits later g earlier hg
      exact ⟨finished, hf.arrives, fun b hb => mem_settled_settle.mpr (Or.inr (hf.settled b hb)),
        hf.onCycle, fun hm => (hf.closed hm).literal hprogram⟩
    · rcases mem_settled_settle.mp hb with rfl | hb
      · have hunmarked : a ∉ p.cyclic := h.unmarked hs hu
        rw [harrives.finds_iff]
        exact iff_of_false hunmarked (Store.not_onCycleOutside_of_literal hprogram)
      · exact h.found b hb

theorem finish (hw : p.waiting = f :: rest) (hu : f.unread = []) (h : Tracked s roots [] todo p) :
    Tracked s roots [] todo (settle { p with waiting := rest } f.address text) where
  toSound := h.toSound.finish hw hu
  follows := h.follows.finish hw hu
  waits := by
    intro later g earlier hg
    obtain ⟨finished, hf⟩ := h.waits (f :: later) g earlier (by rw [hw]; exact congrArg _ hg)
    exact ⟨finished, hf.arrives, fun b hb => mem_settled_settle.mpr (Or.inr (hf.settled b hb)),
      hf.onCycle, fun hm => (hf.closed hm).finish hu⟩
  found := by
    intro b hb
    rcases mem_settled_settle.mp hb with rfl | hb
    · obtain ⟨finished, hf⟩ := h.waits [] f rest hw
      have hs : f.address ∉ p.settled := h.unsettled _ (by simp [line, hw])
      rw [hf.arrives.finds_iff]
      refine ⟨hf.onCycle, fun hc => ?_⟩
      by_contra hm
      exact (hf.closed hm).not_onCycleOutside hu hs hc
    · exact h.found b hb

end Tracked

end Spreadsheet.Pass
