import Spreadsheet.Proofs.Pass.Texts

/-! # The finished pass

What holds of a pass that has visited some cells of a sheet and all they read: `Pass.Complete`. It
holds whatever the functions that change answer (`Pass.satisfiesM_visitAll`); if no formula calls
one, the pass has no effects at all (`Pass.visitAll_eq_pure`). -/

namespace Spreadsheet.Pass

variable {m : Type → Type} [Monad m] {volatile : Volatile → m Scalar}
variable {s : Store} {roots next todo : List Address} {p q : Pass} {a b : Address} {text : String}
  {f : Frame} {rest : List Frame}

/-- Cells to be visited that hold a text are still to be visited, are settled, or wait. -/
def Covers (s : Store) (roots next todo : List Address) (p : Pass) : Prop :=
  ∀ a ∈ roots, (s.get? a).isSome → a ∈ next ∨ a ∈ todo ∨ a ∈ p.settled ∨ a ∈ p.line

namespace Covers

theorem enter (he : Entered s p a q) (hp : Sound s [a] p) (h : Covers s roots [a] todo p) :
    Covers s roots [] todo q := by
  intro b hb hstored
  have hb := h b hb hstored
  rw [List.mem_singleton] at hb
  cases he with
  | skip hskip =>
    rcases hb with rfl | hb
    · have hne : s.get? b ≠ none := Option.isSome_iff_ne_none.mp hstored
      exact Or.inr (Or.inr (Or.inl (hskip.resolve_left hne)))
    · exact Or.inr hb
  | loop hs hu =>
    rcases hb with rfl | hb
    · exact Or.inr (Or.inr (Or.inr ((hp.underway_iff b).mp hu)))
    · exact Or.inr hb
  | formula =>
    rw [line_suspend, List.mem_cons, settled_suspend]
    tauto
  | literal =>
    rw [mem_settled_settle, line_settle]
    rcases hb with rfl | hb <;> tauto

theorem invariant : Invariant s fun next todo p => Sound s next p ∧ Covers s roots next todo p where
  visit hw h := by
    refine ⟨h.1.visit hw, fun b hb hstored => ?_⟩
    have := h.2 b hb hstored
    simp only [List.mem_cons, List.not_mem_nil, false_or, or_false] at this ⊢
    tauto
  take {f rest a unread todo p} hw hu h := by
    refine ⟨h.1.take hw hu, fun b hb hstored => ?_⟩
    have := h.2 b hb hstored
    simp only [line, hw, List.map_cons, List.not_mem_nil, false_or] at this ⊢
    exact Or.inr this
  enter he h := ⟨h.1.enter he, h.2.enter he h.1⟩
  finish {f rest text todo p} hw hu _ h := by
    refine ⟨h.1.finish hw hu, fun b hb hstored => ?_⟩
    have := h.2 b hb hstored
    rw [mem_settled_settle, line_settle]
    simp only [line, hw, List.map_cons, List.mem_cons] at this ⊢
    rcases this with hb | hb | hb | rfl | hb <;> tauto

end Covers

/-- **The finished pass over `roots`.** The cells that hold a text among `roots` and all they read
are settled; those are marked that the walk to `roots` finds on a cycle; each of them shows what
it should; and a formula reads what they show. -/
structure Complete (s : Store) (roots : List Address) (p : Pass) : Prop where
  stored : ∀ a ∈ p.settled, (s.get? a).isSome
  roots_settled : ∀ a ∈ roots, (s.get? a).isSome → a ∈ p.settled
  reads_settled : ∀ a ∈ p.settled, ∀ b, s.Reads a b → b ∈ p.settled
  marked_settled : ∀ a ∈ p.cyclic, a ∈ p.settled
  found : ∀ a ∈ p.settled, (a ∈ p.cyclic ↔ Walk.Finds s roots a)
  shows : Shows s p.settled p.cyclic
  reading : p.reading = viewOf p.settled

theorem Complete.of_invariants (hw : p.waiting = []) (ht : Tracked s roots [] [] p)
    (hs : Shows s p.settled p.cyclic) (hc : Covers s roots [] [] p) : Complete s roots p where
  stored := ht.stored
  roots_settled a ha hstored := by simpa [line, hw] using hc a ha hstored
  reads_settled a ha b hb := by simpa [line, hw] using ht.closed.settled a ha List.not_mem_nil b hb
  marked_settled a ha := by simpa [line, hw] using ht.marked a ha
  found := ht.found
  shows := hs
  reading := by
    funext a
    unfold Pass.reading viewOf
    cases p.settled[a]? with
    | some text => rfl
    | none =>
      have hu : a ∉ p.underway := mt (ht.underway_iff a).mp (by simp [line, hw])
      exact if_neg (by simpa using hu)

theorem invariant : Invariant s fun next todo p =>
    (Tracked s roots next todo p ∧ Shows s p.settled p.cyclic) ∧ Covers s roots next todo p where
  visit hw h := ⟨Shows.invariant.visit hw h.1, (Covers.invariant.visit hw ⟨h.1.1.toSound, h.2⟩).2⟩
  take hw hu h :=
    ⟨Shows.invariant.take hw hu h.1, (Covers.invariant.take hw hu ⟨h.1.1.toSound, h.2⟩).2⟩
  enter he h := ⟨Shows.invariant.enter he h.1, (Covers.invariant.enter he ⟨h.1.1.toSound, h.2⟩).2⟩
  finish hw hu ht h := ⟨Shows.invariant.finish hw hu ht h.1,
    (Covers.invariant.finish hw hu ht ⟨h.1.1.toSound, h.2⟩).2⟩

/-- **Every pass ends complete**, whatever the functions that change answer. -/
theorem satisfiesM_visitAll [LawfulMonad m] (s : Store) (volatile : Volatile → m Scalar)
    (roots : List Address) : SatisfiesM (Complete s roots) (visitAll s volatile {} roots) := by
  have hstart : (Tracked s roots [] roots {} ∧ Shows s ∅ ∅) ∧ Covers s roots [] roots {} :=
    ⟨⟨Tracked.initial, Shows.initial⟩, fun a ha _ => Or.inr (Or.inl ha)⟩
  refine (invariant.satisfiesM_visitAll (p := {}) rfl hstart).imp fun ⟨hw, ⟨ht, hs⟩, hc⟩ => ?_
  exact Complete.of_invariants hw ht hs hc

/-! ### Passes without effects -/

theorem drain_nil (hw : p.waiting = []) : drain s volatile p = pure p := by
  rw [drain]
  split
  · rfl
  · next h => simp [hw] at h

theorem drain_take {unread : List Address} (hw : p.waiting = f :: rest)
    (hu : f.unread = a :: unread) : drain s volatile p =
      drain s volatile (enter s { p with waiting := { f with unread } :: rest } a) := by
  rw [drain]
  split
  · next h => simp [hw] at h
  · next g rest' h =>
    obtain ⟨rfl, rfl⟩ : f = g ∧ rest = rest' := by simpa [hw] using h
    split
    · next b unread' h =>
      obtain ⟨rfl, rfl⟩ : a = b ∧ unread = unread' := by simpa [hu] using h
      rfl
    · next h => simp [hu] at h

theorem drain_finish (hw : p.waiting = f :: rest) (hu : f.unread = []) : drain s volatile p =
    f.program.shown (p.source volatile) >>= fun text =>
      drain s volatile (settle { p with waiting := rest } f.address text) := by
  rw [drain]
  split
  · next h => simp [hw] at h
  · next g rest' h =>
    obtain ⟨rfl, rfl⟩ : f = g ∧ rest = rest' := by simpa [hw] using h
    split
    · next h => simp [hu] at h
    · rfl

/-- The functions that change, giving nothing. -/
def nothing : Volatile → Id Scalar := fun _ => .empty

/-- No waiting formula calls a function that changes. -/
def Quiet (p : Pass) : Prop := ∀ f ∈ p.waiting, f.program.callsVolatile = false

theorem Quiet.enter (hs : s.Steady) (he : Entered s p a q) (h : p.Quiet) : q.Quiet := by
  cases he with
  | skip => exact h
  | loop => exact h
  | @formula text _ _ ht hf =>
    intro f hf'
    rcases List.mem_cons.mp hf' with rfl | hf'
    · exact hs a _ (Store.program?_formula ht hf)
    · exact h f hf'
  | literal => exact h

section

variable [LawfulMonad m]

theorem drain_eq_pure (hs : s.Steady) (hq : p.Quiet) :
    drain s volatile p = pure (Id.run (drain s nothing p)) := by
  fun_induction drain s volatile p with
  | case1 p hw => rw [drain_nil hw]; rfl
  | case2 p f rest hw a unread hu ih =>
    have hq' : Quiet { p with waiting := { f with unread } :: rest } := by
      intro g hg
      rcases List.mem_cons.mp hg with rfl | hg
      · exact hq f (by simp [hw])
      · exact hq g (by simp [hw, hg])
    rw [drain_take hw hu, ih (hq'.enter hs (entered ..))]
  | case3 p f rest hw hu ih =>
    have hf : f.program.callsVolatile = false := hq f (by simp [hw])
    have hshown : f.program.shown (p.source volatile) = pure (f.program.shownFrom p.reading) :=
      Program.shown_eq_pure (fun a _ => rfl) hf
    have hshown' : f.program.shown (p.source nothing) = pure (f.program.shownFrom p.reading) :=
      Program.shown_eq_pure (fun a _ => rfl) hf
    rw [drain_finish hw hu, hshown, hshown', pure_bind, pure_bind]
    exact ih _ fun g hg => hq g (by simpa [hw] using Or.inr hg)

theorem waiting_drain (p : Pass) : (Id.run (drain s nothing p)).waiting = [] := by
  have htrue : Invariant s fun _ _ _ => True := by constructor <;> intros <;> trivial
  have h : SatisfiesM (fun q => q.waiting = [] ∧ True) (drain s nothing p) :=
    @Invariant.satisfiesM_drain s p Id _ _ nothing _ [] htrue trivial
  exact (SatisfiesM_Id_eq.mp h).1

/-- **A pass over a sheet whose formulas call no function that changes has no effects.** -/
theorem visitAll_eq_pure (hs : s.Steady) (roots : List Address) (hw : p.waiting = []) :
    visitAll s volatile p roots = pure (Id.run (visitAll s nothing p roots)) := by
  induction roots generalizing p with
  | nil => rfl
  | cons a roots ih =>
    have hq : Quiet (p.enter s a) := by
      have hp : Quiet p := by simp [Quiet, hw]
      exact hp.enter hs (entered ..)
    have hvisit : visit s volatile p a = pure (Id.run (visit s nothing p a)) := drain_eq_pure hs hq
    rw [visitAll, List.foldlM_cons, hvisit, pure_bind]
    exact ih (waiting_drain _)

theorem exists_complete (hs : s.Steady) (volatile : Volatile → m Scalar) (roots : List Address) :
    ∃ p, Complete s roots p ∧ visitAll s volatile {} roots = pure p :=
  ⟨_, SatisfiesM_Id_eq.mp (satisfiesM_visitAll s nothing roots), visitAll_eq_pure hs roots rfl⟩

end

end Spreadsheet.Pass
