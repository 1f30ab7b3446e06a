import Spreadsheet.Proofs.Pass.Outcome
import Spreadsheet.Proofs.Pass.Run

/-! # The trail of a pass

A pass that keeps a trail has a list of the cells on which it has started and which it has not
finished, apart from the formulas that wait: it is longer by a cell when the pass starts on one, and
it loses its last cell when the pass finishes one, whichever that is (`Pass.Trail`). A cycle is
marked by looking at the trail only. Between two turns the trail is the line of the waiting
formulas (`Pass.Trail.Coherent`), so a pass that keeps a trail goes as the plain pass
(`Pass.Trail.Ready.run_visitAll`).

A turn may let a new formula wait, so the number of waiting formulas says nothing about the end.
What remains to be done takes one turn less after every turn: a formula on which the pass has not
started counts with all that it reads and its own end (`Pass.remaining`). Main statement:
`Pass.Trail.visit_returns`. -/

namespace Spreadsheet.Pass

open Relation

variable {σ : Type} {s : Store} {volatile : Volatile → StateM σ Scalar} {p q : Pass}
  {a b : Address} {f : Frame} {rest : List Frame} {unread next todo : List Address} {text : String}

/-! ### How much remains -/

/-- The cells of the sheet that are neither finished nor waiting. -/
def fresh (s : Store) (p : Pass) : Finset Address :=
  s.addresses.toFinset.filter fun a => a ∉ p.settled ∧ a ∉ p.underway

/-- The turns that the formula in a cell takes: one for each cell it reads, and one at its end. -/
def cost (s : Store) (a : Address) : Nat :=
  ((s.program? a).map fun program => (program.reads s).length + 1).getD 0

/-- The turns that a pass takes if it comes to all cells. -/
def remaining (s : Store) (p : Pass) : Nat := (∑ a ∈ p.fresh s, cost s a) + p.steps

theorem mem_fresh : a ∈ p.fresh s ↔ (s.get? a).isSome ∧ a ∉ p.settled ∧ a ∉ p.underway := by
  rw [fresh, Finset.mem_filter, List.mem_toFinset, Store.mem_addresses]

theorem fresh_suspend : (p.suspend s a text).fresh s = (p.fresh s).erase a := by
  ext b
  rw [Finset.mem_erase, mem_fresh, mem_fresh, settled_suspend, mem_underway_suspend]
  tauto

theorem fresh_settle : (p.settle a text).fresh s = (p.fresh s).erase a := by
  ext b
  rw [Finset.mem_erase, mem_fresh, mem_fresh, mem_settled_settle, mem_underway_settle]
  tauto

/-- Starting on a cell leaves as many turns as before: those of a formula are now its steps. -/
theorem remaining_enter (he : Entered s p a q) : remaining s q = remaining s p := by
  cases he with
  | skip => rfl
  | loop => rfl
  | @formula text hs hu ht hf =>
    have hcost : cost s a = ((Program.ofSource s.limits text).reads s).length + 1 := by
      rw [cost, Store.program?_formula ht hf, Option.map_some, Option.getD_some]
    have hsteps : (p.suspend s a text).steps = p.steps + cost s a := by
      rw [hcost]
      simp only [steps, waiting_suspend, List.flatMap_cons, List.length_append, List.length_cons]
      omega
    have hmem : a ∈ p.fresh s := mem_fresh.mpr ⟨by simp [ht], hs, hu⟩
    rw [remaining, fresh_suspend, hsteps, remaining, ← Finset.add_sum_erase _ _ hmem]
    omega
  | @literal text hs hu ht hf =>
    have hcost : cost s a = 0 := by rw [cost, Store.program?_literal ht hf]; rfl
    have hmem : a ∈ p.fresh s := mem_fresh.mpr ⟨by simp [ht], hs, hu⟩
    rw [remaining, fresh_settle, remaining, ← Finset.add_sum_erase _ _ hmem, hcost, Nat.zero_add]
    rfl

theorem remaining_take (hw : p.waiting = f :: rest) (hu : f.unread = a :: unread) :
    remaining s { p with waiting := { f with unread } :: rest } + 1 = remaining s p := by
  have hsteps : steps { p with waiting := { f with unread } :: rest } + 1 = p.steps := by
    simp [steps, hw, hu]
    omega
  rw [remaining, remaining, ← hsteps]
  rfl

theorem remaining_finish (hw : p.waiting = f :: rest) (hu : f.unread = [])
    (hf : f.address ∈ p.underway) :
    remaining s (settle { p with waiting := rest } f.address text) + 1 = remaining s p := by
  have hsteps : steps { p with waiting := rest } + 1 = p.steps := by
    simp [steps, hw, hu]
    omega
  have hfresh : f.address ∉ fresh s { p with waiting := rest } := fun h => (mem_fresh.mp h).2.2 hf
  rw [remaining, fresh_settle, Finset.erase_eq_of_notMem hfresh, remaining, ← hsteps]
  rfl

/-! ### The trail -/

/-- A pass with a trail. -/
structure Trail where
  pass : Pass := {}
  /-- The cells on which the pass has started and which it has not finished, the latest last. -/
  visiting : List Address := []

namespace Trail

/-- Finishes a cell with a text; the trail loses its last cell. -/
def settle (t : Trail) (a : Address) (text : String) : Trail :=
  ⟨t.pass.settle a text, t.visiting.dropLast⟩

/-- The cells of the trail from the last one back to the given cell. -/
def backTo (t : Trail) (a : Address) : List Address := a :: t.visiting.reverse.takeWhile (· ≠ a)

/-- Marks the end of the trail from the given cell on, if the cell is on the trail. -/
def closeCycle (t : Trail) (a : Address) : Trail :=
  if a ∈ t.visiting then
    { t with pass.cyclic := (t.backTo a).foldl (fun set b => set.insert b) t.pass.cyclic }
  else t

/-- Starts on a cell as `Pass.enter` does. -/
def enter (s : Store) (t : Trail) (a : Address) : Trail :=
  match s.get? a with
  | none => t
  | some text =>
    if t.pass.settled.contains a then t
    else if t.pass.underway.contains a then t.closeCycle a
    else
      let t := { t with visiting := t.visiting ++ [a] }
      if isFormula text then { t with pass := t.pass.suspend s a text } else t.settle a text

/-- One turn with the latest waiting formula; nothing happens if none waits. -/
def turn (s : Store) (volatile : Volatile → StateM σ Scalar) (x : Trail × σ) : Trail × σ :=
  match x.1.pass.waiting with
  | [] => x
  | f :: rest =>
    match f.unread with
    | a :: unread =>
      (enter s { x.1 with pass.waiting := { f with unread } :: rest } a, x.2)
    | [] =>
      let shown := (f.program.shown (x.1.pass.source volatile)).run x.2
      (settle { x.1 with pass.waiting := rest } f.address shown.1, shown.2)

variable {t : Trail} {x : Trail × σ}

theorem turn_nil (hw : x.1.pass.waiting = []) : turn s volatile x = x := by
  rw [turn, hw]

theorem turn_take (hw : x.1.pass.waiting = f :: rest) (hu : f.unread = a :: unread) :
    turn s volatile x =
      (enter s { x.1 with pass.waiting := { f with unread } :: rest } a, x.2) := by
  simp only [turn, hw, hu]

theorem turn_finish (hw : x.1.pass.waiting = f :: rest) (hu : f.unread = []) :
    turn s volatile x =
      (settle { x.1 with pass.waiting := rest } f.address
        ((f.program.shown (x.1.pass.source volatile)).run x.2).1,
        ((f.program.shown (x.1.pass.source volatile)).run x.2).2) := by
  simp only [turn, hw, hu]

/-- Only what is marked depends on the trail. -/
theorem exists_cyclic_enter (s : Store) (t : Trail) (a : Address) :
    ∃ cyclic, (t.enter s a).pass = { t.pass.enter s a with cyclic } := by
  unfold enter Pass.enter
  cases s.get? a with
  | none => exact ⟨_, rfl⟩
  | some text =>
    dsimp only
    split
    · exact ⟨_, rfl⟩
    · split
      · unfold closeCycle
        split <;> exact ⟨_, rfl⟩
      · split <;> exact ⟨_, rfl⟩

/-- A turn visits a cell that was not visited before, or takes a step. -/
theorem measure_turn (s : Store) (volatile : Volatile → StateM σ Scalar) {x : Trail × σ}
    (h : x.1.pass.waiting ≠ []) :
    Prod.Lex (· < ·) (· < ·)
      ((turn s volatile x).1.pass.unvisited s, (turn s volatile x).1.pass.steps)
      (x.1.pass.unvisited s, x.1.pass.steps) := by
  obtain ⟨f, rest, hw⟩ := List.exists_cons_of_ne_nil h
  cases hu : f.unread with
  | nil =>
    rw [turn_finish hw hu]
    exact measure_finish s hw hu _
  | cons a unread =>
    obtain ⟨cyclic, hcyclic⟩ :=
      exists_cyclic_enter s { x.1 with pass.waiting := { f with unread } :: rest } a
    rw [turn_take hw hu, hcyclic]
    exact measure_take s hw hu

/-- Takes turns until no formula waits. -/
def loop (s : Store) (volatile : Volatile → StateM σ Scalar) (x : Trail × σ) : Trail × σ :=
  if x.1.pass.waiting = [] then x else loop s volatile (turn s volatile x)
termination_by (x.1.pass.unvisited s, x.1.pass.steps)
decreasing_by exact measure_turn s volatile ‹_›

/-- Visits a cell and all cells it reads. -/
def visit (s : Store) (volatile : Volatile → StateM σ Scalar) (x : Trail × σ) (a : Address) :
    Trail × σ :=
  loop s volatile (x.1.enter s a, x.2)

def visitAll (s : Store) (volatile : Volatile → StateM σ Scalar) (x : Trail × σ)
    (as : List Address) : Trail × σ :=
  as.foldl (visit s volatile) x

/-! ### The trail is the line -/

/-- The trail is the line of the waiting formulas, the latest last. -/
structure Coherent (s : Store) (next : List Address) (t : Trail) : Prop where
  visiting_eq : t.visiting = t.pass.line.reverse
  sound : Sound s next t.pass

namespace Coherent

theorem initial : Coherent s [] {} := ⟨rfl, Sound.initial⟩

theorem visit (hw : t.pass.waiting = []) (h : Coherent s [] t) : Coherent s [a] t :=
  ⟨h.visiting_eq, h.sound.visit hw⟩

theorem take (hw : t.pass.waiting = f :: rest) (hu : f.unread = a :: unread)
    (h : Coherent s [] t) :
    Coherent s [a] { t with pass.waiting := { f with unread } :: rest } where
  visiting_eq := by
    rw [h.visiting_eq]
    simp [line, hw]
  sound := h.sound.take hw hu

theorem pass_closeCycle (ha : a ∈ t.pass.underway) (h : Coherent s next t) :
    (t.closeCycle a).pass = t.pass.closeCycle a := by
  have hline : a ∈ t.pass.line := (h.sound.underway_iff a).mp ha
  have hvisiting : a ∈ t.visiting := by rwa [h.visiting_eq, List.mem_reverse]
  rw [closeCycle, if_pos hvisiting, backTo, h.visiting_eq, List.reverse_reverse]
  rfl

/-- **A pass with a trail starts on a cell as the plain pass.** -/
theorem pass_enter (a : Address) (h : Coherent s next t) :
    (t.enter s a).pass = t.pass.enter s a := by
  unfold Trail.enter Pass.enter
  cases s.get? a with
  | none => rfl
  | some text =>
    by_cases hs : t.pass.settled.contains a = true
    · simp only [hs, if_true]
    by_cases hu : t.pass.underway.contains a = true
    · simp only [hs, hu, if_true]
      exact h.pass_closeCycle (by simpa using hu)
    · simp only [hs, hu, apply_ite Trail.pass]
      rfl

theorem enter (h : Coherent s [a] t) : Coherent s [] (t.enter s a) where
  visiting_eq := by
    have hv := h.visiting_eq
    unfold Trail.enter
    cases s.get? a with
    | none => exact hv
    | some text =>
      dsimp only
      split
      · exact hv
      · split
        · unfold closeCycle
          split <;> exact hv
        · split
          · rw [line_suspend, List.reverse_cons, ← hv]
          · rw [Trail.settle, List.dropLast_concat, line_settle, ← hv]
  sound := by
    rw [h.pass_enter a]
    exact h.sound.enter (entered ..)

theorem finish (hw : t.pass.waiting = f :: rest) (hu : f.unread = []) (h : Coherent s [] t) :
    Coherent s [] (settle { t with pass.waiting := rest } f.address text) where
  visiting_eq := by
    have hv : t.visiting = (rest.map Frame.address).reverse ++ [f.address] := by
      rw [h.visiting_eq, line, hw, List.map_cons, List.reverse_cons]
    rw [Trail.settle, hv, List.dropLast_concat]
    rfl
  sound := h.sound.finish hw hu

/-- **Every turn is one of the plain pass.** -/
theorem pass_turn (todo : List Address) (hw : x.1.pass.waiting ≠ []) (h : Coherent s [] x.1) :
    Pass.Turn s volatile ⟨todo, x.1.pass, x.2⟩
      ⟨todo, (turn s volatile x).1.pass, (turn s volatile x).2⟩ := by
  obtain ⟨f, rest, hw⟩ := List.exists_cons_of_ne_nil hw
  cases hu : f.unread with
  | nil =>
    rw [turn_finish hw hu]
    exact .finish hw hu rfl
  | cons a unread =>
    rw [turn_take hw hu, (h.take hw hu).pass_enter a]
    exact .take hw hu

theorem turn (h : Coherent s [] x.1) : Coherent s [] (turn s volatile x).1 := by
  cases hw : x.1.pass.waiting with
  | nil => rwa [turn_nil hw]
  | cons f rest =>
    cases hu : f.unread with
    | nil =>
      rw [turn_finish hw hu]
      exact h.finish hw hu
    | cons a unread =>
      rw [turn_take hw hu]
      exact (h.take hw hu).enter

theorem iterate (h : Coherent s [] x.1) (k : Nat) :
    Coherent s [] ((Trail.turn s volatile)^[k] x).1 := by
  induction k with
  | zero => exact h
  | succ k ih =>
    rw [Function.iterate_succ_apply']
    exact ih.turn

theorem loop (h : Coherent s [] x.1) : Coherent s [] (loop s volatile x).1 := by
  fun_induction Trail.loop s volatile x with
  | case1 x hw => exact h
  | case2 x hw ih => exact ih h.turn

end Coherent

theorem waiting_loop (x : Trail × σ) : (loop s volatile x).1.pass.waiting = [] := by
  fun_induction Trail.loop s volatile x with
  | case1 x hw => exact hw
  | case2 x hw ih => exact ih

/-! ### Without the trail -/

theorem run_drain_turn (h : Coherent s [] x.1) :
    (drain s volatile x.1.pass).run x.2 =
      (drain s volatile (turn s volatile x).1.pass).run (turn s volatile x).2 := by
  cases hw : x.1.pass.waiting with
  | nil => rw [turn_nil hw]
  | cons f rest =>
    cases hu : f.unread with
    | nil =>
      rw [turn_finish hw hu, drain_finish hw hu, StateT.run_bind]
      rfl
    | cons a unread => rw [turn_take hw hu, drain_take hw hu, (h.take hw hu).pass_enter a]

theorem run_drain (h : Coherent s [] x.1) :
    (drain s volatile x.1.pass).run x.2 = ((loop s volatile x).1.pass, (loop s volatile x).2) := by
  fun_induction Trail.loop s volatile x with
  | case1 x hw =>
    rw [drain_nil hw]
    rfl
  | case2 x hw ih => rw [run_drain_turn h, ih h.turn]

/-- A pass that keeps a trail, before it visits a cell. -/
structure Ready (s : Store) (t : Trail) : Prop extends Coherent s [] t where
  waiting : t.pass.waiting = []

namespace Ready

theorem initial : Ready s {} := ⟨Coherent.initial, rfl⟩

/-- The pass has started on a cell. -/
theorem enter (h : Ready s t) (a : Address) : Coherent s [] (t.enter s a) :=
  (h.toCoherent.visit (a := a) h.waiting).enter

theorem visit (h : Ready s x.1) (a : Address) : Ready s (visit s volatile x a).1 :=
  ⟨Coherent.loop (h.enter a), waiting_loop _⟩

theorem visitAll (h : Ready s x.1) (as : List Address) : Ready s (visitAll s volatile x as).1 := by
  induction as generalizing x with
  | nil => exact h
  | cons a as ih => exact ih (h.visit a)

theorem run_visit (h : Ready s x.1) (a : Address) : (Pass.visit s volatile x.1.pass a).run x.2 =
    ((Trail.visit s volatile x a).1.pass, (Trail.visit s volatile x a).2) := by
  rw [Pass.visit, ← h.toCoherent.pass_enter a]
  exact run_drain (x := (x.1.enter s a, x.2)) (h.enter a)

/-- **A pass that keeps a trail goes as the pass without one.** -/
theorem run_visitAll (h : Ready s x.1) (as : List Address) :
    (Pass.visitAll s volatile x.1.pass as).run x.2 =
      ((Trail.visitAll s volatile x as).1.pass, (Trail.visitAll s volatile x as).2) := by
  induction as generalizing x with
  | nil => rfl
  | cons a as ih =>
    rw [Pass.visitAll, List.foldlM_cons, StateT.run_bind, h.run_visit a]
    exact ih (h.visit a)

end Ready

/-! ### The end of the loop -/

theorem remaining_turn (hw : x.1.pass.waiting ≠ []) (h : Coherent s [] x.1) :
    remaining s (turn s volatile x).1.pass + 1 = remaining s x.1.pass := by
  obtain ⟨f, rest, hw⟩ := List.exists_cons_of_ne_nil hw
  cases hu : f.unread with
  | nil =>
    have hf : f.address ∈ x.1.pass.underway :=
      (h.sound.underway_iff _).mpr (by simp [line, hw])
    rw [turn_finish hw hu]
    exact remaining_finish hw hu hf
  | cons a unread =>
    rw [turn_take hw hu, (h.take hw hu).pass_enter a, remaining_enter (entered ..)]
    exact remaining_take hw hu

/-- **The loop ends after as many turns as it takes from what remains.** -/
theorem exists_turns (volatile : Volatile → StateM σ Scalar) (h : Coherent s [] x.1) : ∃ n,
    (turn s volatile)^[n] x = loop s volatile x ∧
    (∀ k < n, ((turn s volatile)^[k] x).1.pass.waiting ≠ []) ∧
    n + remaining s (loop s volatile x).1.pass = remaining s x.1.pass := by
  fun_induction loop s volatile x with
  | case1 x hw => exact ⟨0, rfl, fun k hk => absurd hk (Nat.not_lt_zero k), Nat.zero_add _⟩
  | case2 x hw ih =>
    obtain ⟨n, hend, hbefore, hn⟩ := ih h.turn
    refine ⟨n + 1, by rw [Function.iterate_succ_apply, hend], fun k hk => ?_, ?_⟩
    · cases k with
      | zero => exact hw
      | succ k =>
        rw [Function.iterate_succ_apply]
        exact hbefore k (Nat.lt_of_succ_lt_succ hk)
    · rw [← remaining_turn hw h, ← hn]
      omega

theorem waiting_iterate_iff {n k : Nat} (hend : ((turn s volatile)^[n] x).1.pass.waiting = [])
    (hbefore : ∀ k < n, ((turn s volatile)^[k] x).1.pass.waiting ≠ []) :
    ((turn s volatile)^[k] x).1.pass.waiting = [] ↔ n ≤ k := by
  constructor
  · intro hk
    by_contra hlt
    exact hbefore k (Nat.lt_of_not_le hlt) hk
  · intro hle
    obtain ⟨d, rfl⟩ := Nat.exists_eq_add_of_le' hle
    rw [Function.iterate_add_apply, Function.iterate_fixed (turn_nil hend)]
    exact hend

theorem Ready.notMem_underway (h : Ready s t) (a : Address) : a ∉ t.pass.underway :=
  mt (h.sound.underway_iff a).mp (by simp [line, h.waiting])

theorem Ready.mem_fresh (h : Ready s t) :
    a ∈ t.pass.fresh s ↔ (s.get? a).isSome ∧ a ∉ t.pass.settled := by
  rw [Pass.mem_fresh, and_iff_left (h.notMem_underway a)]

theorem Ready.remaining_eq (h : Ready s t) :
    remaining s t.pass = ∑ a ∈ t.pass.fresh s, cost s a := by
  rw [remaining, steps, h.waiting]
  rfl

/-- The cells that are settled in the second pass and not in the first one. -/
def newlySettled (s : Store) (p q : Pass) : Finset Address :=
  s.addresses.toFinset.filter fun a => a ∈ q.settled ∧ a ∉ p.settled

/-- The turns that the formulas in these cells take. -/
def turns (s : Store) (p q : Pass) : Nat := ∑ a ∈ newlySettled s p q, cost s a

/-- Two passes differ in what remains by the turns of the cells that are settled in one only. -/
theorem turns_add_remaining {u : Trail} (ht : Ready s t) (hu : Ready s u)
    (hsub : ∀ a ∈ t.pass.settled, a ∈ u.pass.settled) :
    turns s t.pass u.pass + remaining s u.pass = remaining s t.pass := by
  have hnewly : newlySettled s t.pass u.pass = t.pass.fresh s \ u.pass.fresh s := by
    ext a
    rw [newlySettled, Finset.mem_filter, List.mem_toFinset, Store.mem_addresses, Finset.mem_sdiff,
      ht.mem_fresh, hu.mem_fresh]
    tauto
  have hfresh : u.pass.fresh s ⊆ t.pass.fresh s := by
    intro a ha
    obtain ⟨hstored, hs⟩ := hu.mem_fresh.mp ha
    exact ht.mem_fresh.mpr ⟨hstored, mt (hsub a) hs⟩
  rw [turns, hnewly, ht.remaining_eq, hu.remaining_eq]
  exact Finset.sum_sdiff hfresh

/-! ### What stays settled, and what is settled in the end -/

/-- The shown texts of a pass stay as they are. -/
def Keeps (shown : Std.TreeMap Address String) (p : Pass) : Prop :=
  ∀ (a : Address) (text : String), shown[a]? = some text → p.settled[a]? = some text

theorem Keeps.mem_settled {shown : Std.TreeMap Address String} (h : Keeps shown p)
    (ha : a ∈ shown) : a ∈ p.settled := by
  have hget : p.settled[a]? = some shown[a] := h a shown[a] (Std.TreeMap.getElem?_eq_some_getElem ha)
  obtain ⟨hmem, -⟩ := Std.TreeMap.getElem?_eq_some_iff.mp hget
  exact hmem

theorem Keeps.settle {shown : Std.TreeMap Address String} (hs : a ∉ p.settled)
    (h : Keeps shown p) : Keeps shown (p.settle a text) := by
  intro b textb hb
  have hkept : p.settled[b]? = some textb := h b textb hb
  obtain ⟨hmem, -⟩ := Std.TreeMap.getElem?_eq_some_iff.mp hkept
  have hne : a ≠ b := by
    rintro rfl
    exact hs hmem
  rw [getElem?_settle, if_neg hne]
  exact hkept

theorem Keeps.invariant {shown : Std.TreeMap Address String} :
    Invariant s fun next _ p => Sound s next p ∧ Keeps shown p where
  visit hw h := ⟨h.1.visit hw, h.2⟩
  take hw hu h := ⟨h.1.take hw hu, h.2⟩
  enter he h := by
    refine ⟨h.1.enter he, ?_⟩
    cases he with
    | literal hs => exact h.2.settle hs
    | _ => exact h.2
  finish {f rest text todo p} hw hu _ h := by
    have hs : f.address ∉ p.settled := h.1.unsettled _ (by simp [line, hw])
    have hkeeps : Keeps shown { p with waiting := rest } := h.2
    exact ⟨h.1.finish hw hu, hkeeps.settle hs⟩

variable {Inv : List Address → List Address → Pass → Prop}

theorem Coherent.loop_keeps (hinv : Invariant s Inv) (h : Coherent s [] x.1)
    (hx : Inv [] todo x.1.pass) : Inv [] todo (Trail.loop s volatile x).1.pass := by
  fun_induction Trail.loop s volatile x with
  | case1 x hw => exact hx
  | case2 x hw ih => exact ih h.turn (hinv.turn (h.pass_turn todo hw) hx)

theorem Ready.visit_keeps (hinv : Invariant s Inv) (todo : List Address) (h : Ready s x.1)
    (hx : Inv [] (a :: todo) x.1.pass) : Inv [] todo (Trail.visit s volatile x a).1.pass := by
  refine Coherent.loop_keeps hinv (h.enter a) ?_
  rw [h.toCoherent.pass_enter a]
  exact hinv.enter (entered ..) (hinv.visit h.waiting hx)

theorem Ready.keeps_visit (h : Ready s x.1) (a : Address) :
    Keeps x.1.pass.settled (Trail.visit s volatile x a).1.pass :=
  (h.visit_keeps Keeps.invariant [] ⟨h.sound, fun _ _ hb => hb⟩).2

/-- A cell that is visited is settled in the end, if it holds a text. -/
theorem Ready.mem_settled_visit (h : Ready s x.1) (ha : (s.get? a).isSome) :
    a ∈ (Trail.visit s volatile x a).1.pass.settled := by
  have hstart : Covers s [a] [] [a] x.1.pass := fun b hb _ => Or.inr (Or.inl hb)
  have hend : Covers s [a] [] [] (Trail.visit s volatile x a).1.pass :=
    (h.visit_keeps Covers.invariant [] ⟨h.sound, hstart⟩).2
  simpa [line, (h.visit a).waiting] using hend a List.mem_cons_self ha

/-- The cells that a settled cell reads are settled when no formula waits. -/
theorem Ready.settled_of_reads (h : Ready s t) (ha : a ∈ t.pass.settled) (hb : s.Reads a b) :
    b ∈ t.pass.settled := by
  simpa [line, h.waiting] using h.sound.closed.settled a ha List.not_mem_nil b hb

/-- **All cells with a text that a visited cell reaches are settled.** -/
theorem Ready.mem_settled_of_reaches (h : Ready s x.1) (hr : ReflTransGen s.Reads a b)
    (hb : (s.get? b).isSome) : b ∈ (Trail.visit s volatile x a).1.pass.settled := by
  induction hr with
  | refl => exact h.mem_settled_visit hb
  | @tail c d _ hcd ih =>
    obtain ⟨program, hprogram, -⟩ := hcd.program?
    exact (h.visit a).settled_of_reads (ih (Store.isSome_of_program? hprogram)) hcd

/-! ### What holds between turns and in the end -/

/-- Between two turns the trail is the cells of the waiting formulas, the latest last. Each of them
is on it once, they are the cells kept as waiting, and none of them is settled. -/
structure Aligned (t : Trail) : Prop where
  visiting_eq : t.visiting = t.pass.waiting.reverse.map Frame.address
  nodup : t.visiting.Nodup
  mem_underway_iff : ∀ a, a ∈ t.pass.underway ↔ a ∈ t.visiting
  unsettled : ∀ a ∈ t.visiting, a ∉ t.pass.settled

theorem Coherent.aligned (h : Coherent s [] t) : t.Aligned where
  visiting_eq := by rw [h.visiting_eq, line, List.map_reverse]
  nodup := by
    rw [h.visiting_eq, List.nodup_reverse]
    exact h.sound.nodup
  mem_underway_iff a := by rw [h.sound.underway_iff, h.visiting_eq, List.mem_reverse]
  unsettled a ha := by
    rw [h.visiting_eq, List.mem_reverse] at ha
    exact h.sound.unsettled a ha

/-- After the visit of a cell nothing is left on the trail and nothing waits; what was settled shows
the same texts, and all cells with a text that the visited cell reaches are settled. -/
structure Cleared (s : Store) (a : Address) (before after : Trail) : Prop where
  visiting_eq_nil : after.visiting = []
  underway_isEmpty : after.pass.underway.isEmpty = true
  keeps : ∀ (b : Address) (text : String),
    before.pass.settled[b]? = some text → after.pass.settled[b]? = some text
  reached : ∀ b, ReflTransGen s.Reads a b → (s.get? b).isSome → b ∈ after.pass.settled

theorem Ready.cleared (h : Ready s x.1) (a : Address) :
    Cleared s a x.1 (Trail.visit s volatile x a).1 where
  visiting_eq_nil := by
    rw [(h.visit a).visiting_eq, line, (h.visit a).waiting]
    rfl
  underway_isEmpty := Std.TreeSet.isEmpty_iff_forall_not_mem.mpr (h.visit a).notMem_underway
  keeps := h.keeps_visit a
  reached _ := h.mem_settled_of_reaches

/-- **The loop of a visit ends and cleans up.** Whatever cells have been visited before, the pass
visits the next one in as many turns as the formulas cost that are settled on the way, and stops
there. Between any two of these turns the trail is aligned with the waiting formulas, and in the end
it is cleared. The pass is the one without a trail. -/
theorem visit_returns (s : Store) (volatile : Volatile → StateM σ Scalar) (st : σ)
    (calls : List Address) (a : Address) :
    let before := visitAll s volatile ({}, st) calls
    let start := (before.1.enter s a, before.2)
    let after := visit s volatile before a
    (Pass.visitAll s volatile {} calls).run st = (before.1.pass, before.2) ∧
    (Pass.visit s volatile before.1.pass a).run before.2 = (after.1.pass, after.2) ∧
    (turn s volatile)^[turns s before.1.pass after.1.pass] start = after ∧
    (∀ k, ((turn s volatile)^[k] start).1.pass.waiting = [] ↔
      turns s before.1.pass after.1.pass ≤ k) ∧
    (∀ k, Aligned ((turn s volatile)^[k] start).1) ∧
    Cleared s a before.1 after.1 := by
  intro before start after
  have hbefore : Ready s before.1 := Ready.initial.visitAll calls
  have hafter : Ready s after.1 := hbefore.visit a
  have hstart : Coherent s [] start.1 := hbefore.enter a
  have hpass : (Pass.visitAll s volatile {} calls).run st = (before.1.pass, before.2) :=
    Ready.initial.run_visitAll (x := ({}, st)) calls
  obtain ⟨n, hend, hturns, hn⟩ := exists_turns volatile hstart
  have hremaining : remaining s start.1.pass = remaining s before.1.pass := by
    rw [hbefore.toCoherent.pass_enter a, remaining_enter (entered ..)]
  have hcount : turns s before.1.pass after.1.pass = n := by
    have hkeeps : Keeps before.1.pass.settled after.1.pass := hbefore.keeps_visit a
    have hadd := turns_add_remaining hbefore hafter fun b hb => hkeeps.mem_settled hb
    rw [← hremaining, ← hn] at hadd
    exact Nat.add_right_cancel hadd
  have hstop : ((turn s volatile)^[n] start).1.pass.waiting = [] := hend ▸ hafter.waiting
  rw [hcount]
  exact ⟨hpass, hbefore.run_visit a, hend, fun k => waiting_iterate_iff hstop hturns,
    fun k => (hstart.iterate k).aligned, hbefore.cleared a⟩

end Trail

end Spreadsheet.Pass
