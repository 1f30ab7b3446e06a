import Spreadsheet.Proofs.Pass.Outcome

/-! # The cycles that a recalculation finds

A recalculation marks no cell that lies on no cycle, and marks a cell on every cycle, so that it
counts no marked cell exactly if the sheet has no cycle: `Store.circular_eq_zero_iff`. Where
cycles share cells, it need not mark all of them. It marks the cells that the walk through the
sheet finds on a cycle; a cell whose cycles all lead through finished cells by the time the walk
goes to it is given the text of its formula, as a cell on no cycle is: `Store.cyclic_iff_finds`.
-/

namespace Spreadsheet

open Relation

namespace Pass

variable {s : Store} {roots : List Address} {p : Pass} {a b : Address}

/-- What a finished pass has found. -/
def recalculation (p : Pass) : Recalculation := ⟨p.settled, p.stats⟩

/-! ### The marks of a finished pass -/

/-- No settled cell leads back to itself through cells that are not marked. -/
theorem Shows.not_transGen {shown : Std.TreeMap Address String} {cyclic : Std.TreeSet Address}
    (h : Shows s shown cyclic) (ha : a ∈ shown) :
    ¬ TransGen (fun b c => s.Reads b c ∧ b ∉ cyclic) a a := by
  have hacc : Acc (TransGen (ReadByUnmarked s cyclic)) a := (h.grounded a ha).transGen
  intro hc
  have hc' : TransGen (ReadByUnmarked s cyclic) a a := transGen_swap.mp hc
  induction hacc with
  | intro a _ ih => exact ih a hc' ha hc hc'

/-- The cells of a chain lead from the first one to the last one. -/
theorem transGen_of_isChain {R : Address → Address → Prop} {l : List Address}
    (h : (a :: (l ++ [b])).IsChain R) : TransGen (fun c d => R c d ∧ c ∈ a :: l) a b := by
  induction l generalizing a with
  | nil =>
    rw [List.nil_append, List.isChain_cons_cons] at h
    exact TransGen.single ⟨h.1, List.mem_cons_self⟩
  | cons c l ih =>
    rw [List.cons_append, List.isChain_cons_cons] at h
    refine TransGen.head ⟨h.1, List.mem_cons_self⟩ ?_
    exact TransGen.mono (fun _ _ hde => ⟨hde.1, List.mem_cons_of_mem a hde.2⟩) c b (ih h.2)

/-- **A finished pass has marked a cell on every cycle.** -/
theorem Shows.exists_marked {shown : Std.TreeMap Address String} {cyclic : Std.TreeSet Address}
    {l : List Address} (h : Shows s shown cyclic) (ha : a ∈ shown)
    (hl : (a :: (l ++ [a])).IsChain s.Reads) : ∃ b ∈ a :: l, b ∈ cyclic := by
  by_contra hnone
  have hunmarked : ∀ b ∈ a :: l, b ∉ cyclic := fun b hb hm => hnone ⟨b, hb, hm⟩
  refine h.not_transGen ha ?_
  exact TransGen.mono (fun b c hbc => ⟨hbc.1, hunmarked b hbc.2⟩) a a (transGen_of_isChain hl)

namespace Complete

theorem mem_settled_iff (h : Complete s s.addresses p) : a ∈ p.settled ↔ (s.get? a).isSome :=
  ⟨h.stored a, fun ha => h.roots_settled a (Store.mem_addresses.mpr ha) ha⟩

theorem mem_settled_of_onCycle (h : Complete s s.addresses p) (ha : s.OnCycle a) :
    a ∈ p.settled := by
  obtain ⟨b, -, hba⟩ := TransGen.tail'_iff.mp ha
  exact h.mem_settled_iff.mpr hba.isSome

theorem mem_cyclic_iff (h : Complete s s.addresses p) :
    a ∈ p.cyclic ↔ Walk.Finds s s.addresses a := by
  constructor
  · exact fun hm => (h.found a (h.marked_settled a hm)).mp hm
  · exact fun hf => (h.found a (h.mem_settled_of_onCycle hf.onCycle)).mpr hf

theorem getElem?_of_mem_cyclic (h : Complete s roots p) (hm : a ∈ p.cyclic) :
    p.settled[a]? = some Marker.cycle.text := h.shows.marked a (h.marked_settled a hm) hm

theorem exists_mem_cyclic_iff (h : Complete s s.addresses p) :
    (∃ a, a ∈ p.cyclic) ↔ ∃ a, s.OnCycle a := by
  constructor
  · rintro ⟨a, hm⟩
    exact ⟨a, (h.mem_cyclic_iff.mp hm).onCycle⟩
  · rintro ⟨a, ha⟩
    by_contra hnone
    have hunmarked : ∀ b, b ∉ p.cyclic := fun b hm => hnone ⟨b, hm⟩
    refine h.shows.not_transGen (h.mem_settled_of_onCycle ha) ?_
    exact TransGen.mono (fun b c hbc => ⟨hbc, hunmarked b⟩) a a ha

end Complete

theorem nodup_toList (set : Std.TreeSet Address) : set.toList.Nodup := by
  refine set.distinct_toList.imp fun {a b} hab => ?_
  rintro rfl
  exact hab Std.ReflCmp.compare_self

/-- The size of a set is the number of its members. -/
theorem size_eq_ncard (set : Std.TreeSet Address) : set.size = {a | a ∈ set}.ncard := by
  have hmem : {a | a ∈ set} = (set.toList.toFinset : Set Address) := by
    ext a
    simp
  rw [hmem, Set.ncard_coe_finset, List.toFinset_card_of_nodup (nodup_toList set),
    Std.TreeSet.length_toList]

section

variable {m : Type → Type} [Monad m] [LawfulMonad m] {volatile : Volatile → m Scalar}

/-- A mark stays to the end of the pass. -/
theorem satisfiesM_mem_cyclic (hm : a ∈ p.cyclic) (todo : List Address) :
    SatisfiesM (fun q => a ∈ q.cyclic)
      (drain s volatile p >>= fun q => visitAll s volatile q todo) := by
  have hinv : Invariant s fun _ _ q => a ∈ q.cyclic := by
    refine ⟨fun _ h => h, fun _ _ h => h, fun he h => ?_, fun _ _ _ h => h⟩
    cases he with
    | loop => exact mem_cyclic_closeCycle.mpr (Or.inr h)
    | _ => exact h
  have hdrain : SatisfiesM (fun q => q.waiting = [] ∧ a ∈ q.cyclic) (drain s volatile p) :=
    @Invariant.satisfiesM_drain s p m _ _ volatile _ todo hinv hm
  refine SatisfiesM.bind hdrain fun q hq => ?_
  exact (hinv.satisfiesM_visitAll hq.1 hq.2).imp And.right

end

end Pass

namespace Store

variable {m : Type → Type} [Monad m] [LawfulMonad m]

/-! ### Recalculations -/

/-- The pass of a recalculation: it visits all cells of the sheet, row by row. -/
def pass (s : Store) (volatile : Volatile → m Scalar) : m Pass :=
  Pass.visitAll s volatile {} s.addresses

theorem recalculate_eq (s : Store) (volatile : Volatile → m Scalar) :
    s.recalculate volatile = Pass.recalculation <$> s.pass volatile :=
  bind_pure_comp _ _

theorem satisfiesM_pass (s : Store) (volatile : Volatile → m Scalar) :
    SatisfiesM (Pass.Complete s s.addresses) (s.pass volatile) :=
  Pass.satisfiesM_visitAll s volatile s.addresses

/-- **A recalculation counts no cell on a cycle exactly if the sheet has no cycle.** It marks a
cell on every cycle, which shows the marker of a cycle; and a cell that is marked at any time
during the pass stays marked and lies on a cycle. -/
theorem circular_eq_zero_iff (s : Store) (volatile : Volatile → m Scalar) :
    s.recalculate volatile = Pass.recalculation <$> s.pass volatile ∧
    SatisfiesM (fun p => (p.recalculation.stats.circular = 0 ↔ ∀ a, ¬ s.OnCycle a) ∧
      (∀ a l, (a :: (l ++ [a])).IsChain s.Reads →
        ∃ b ∈ a :: l, b ∈ p.cyclic ∧ p.recalculation.shown[b]? = some Marker.cycle.text) ∧
      ∀ a ∈ p.cyclic, s.OnCycle a) (s.pass volatile) ∧
    ∀ (p : Pass) (todo : List Address), ∀ a ∈ p.cyclic, SatisfiesM (fun q => a ∈ q.cyclic)
      (p.drain s volatile >>= fun q => Pass.visitAll s volatile q todo) := by
  refine ⟨s.recalculate_eq volatile, (s.satisfiesM_pass volatile).imp fun {p} hp => ?_,
    fun p todo a hm => Pass.satisfiesM_mem_cyclic hm todo⟩
  refine ⟨?_, fun a l hl => ?_, fun a hm => (hp.mem_cyclic_iff.mp hm).onCycle⟩
  · have hsize : p.cyclic.size = 0 ↔ ¬ ∃ a, a ∈ p.cyclic := by
      rw [← beq_iff_eq, ← Std.TreeSet.isEmpty_eq_size_eq_zero,
        Std.TreeSet.isEmpty_iff_forall_not_mem, not_exists]
    rw [← not_exists, ← hp.exists_mem_cyclic_iff]
    exact hsize
  · have hcycle : s.OnCycle a :=
      TransGen.mono (fun _ _ hbc => hbc.1) a a (Pass.transGen_of_isChain hl)
    obtain ⟨b, hb, hm⟩ := hp.shows.exists_marked (hp.mem_settled_of_onCycle hcycle) hl
    exact ⟨b, hb, hm, hp.getElem?_of_mem_cyclic hm⟩

/-- A sheet with two cycles that share cells: `A1` reads `B1` and `C1`, which both lead back to
`A1`. -/
def crossing : Store :=
  Store.empty {}
    |>.insert ⟨0, 0⟩ "=B1+C1" (by decide) (by decide)
    |>.insert ⟨0, 1⟩ "=A1" (by decide) (by decide)
    |>.insert ⟨0, 2⟩ "=B1+1" (by decide) (by decide)
    |>.insert ⟨0, 3⟩ "=NOT(C1)" (by decide) (by decide)
    |>.insert ⟨0, 4⟩ "total" (by decide) (by decide)

theorem crossing_readsOf : crossing.readsOf ⟨0, 0⟩ = [⟨0, 1⟩, ⟨0, 2⟩] ∧
    crossing.readsOf ⟨0, 1⟩ = [⟨0, 0⟩] ∧ crossing.readsOf ⟨0, 2⟩ = [⟨0, 1⟩] := by decide +kernel

theorem crossing_reads : crossing.Reads ⟨0, 0⟩ ⟨0, 1⟩ ∧ crossing.Reads ⟨0, 1⟩ ⟨0, 0⟩ ∧
    crossing.Reads ⟨0, 2⟩ ⟨0, 1⟩ := by
  obtain ⟨hA, hB, hC⟩ := crossing_readsOf
  simp [Reads, hA, hB, hC]

theorem crossing_counts : ∃ r, crossing.recalculate Pass.nothing = pure r ∧ r.stats.circular ≠ 0 ∧
    ∃ a ∈ ([⟨0, 0⟩, ⟨0, 1⟩] : List Address), r.shown[a]? = some Marker.cycle.text := by
  obtain ⟨heq, hp, -⟩ := crossing.circular_eq_zero_iff (m := Id) Pass.nothing
  obtain ⟨hzero, hcycle, -⟩ := SatisfiesM_Id_eq.mp hp
  have hchain : List.IsChain crossing.Reads [⟨0, 0⟩, ⟨0, 1⟩, ⟨0, 0⟩] := by simp [crossing_reads]
  obtain ⟨a, ha, -, hshown⟩ := hcycle ⟨0, 0⟩ [⟨0, 1⟩] hchain
  have hleads := Pass.transGen_of_isChain (l := [⟨0, 1⟩]) hchain
  refine ⟨_, heq, fun h => hzero.mp h ⟨0, 0⟩ ?_, a, ha, hshown⟩
  exact TransGen.mono (fun _ _ hbc => hbc.1) _ _ hleads

/-- **Which cells on cycles a recalculation finds.** A cell on a cycle is marked, and shows the
marker of a cycle for that, exactly if the walk through the sheet finds it on a cycle. The count
of cells on cycles is the number of these, so it is right exactly if the walk finds all cells on
cycles. Any other formula is given its text from what the sheet shows. -/
theorem cyclic_iff_finds (s : Store) (volatile : Volatile → m Scalar) :
    s.recalculate volatile = Pass.recalculation <$> s.pass volatile ∧
    SatisfiesM (fun p =>
      (∀ a, s.OnCycle a →
        (a ∈ p.cyclic ∧ p.recalculation.shown[a]? = some Marker.cycle.text ↔
          Walk.Finds s s.addresses a)) ∧
      p.recalculation.stats.circular = {a | Walk.Finds s s.addresses a}.ncard ∧
      (p.recalculation.stats.circular = {a | s.OnCycle a}.ncard ↔
        ∀ a, s.OnCycle a → Walk.Finds s s.addresses a) ∧
      ∀ a program, s.program? a = some program → ¬ Walk.Finds s s.addresses a →
        program.callsVolatile = false →
        p.recalculation.shown[a]? = some (program.shownFrom (viewOf p.recalculation.shown)))
      (s.pass volatile) := by
  refine ⟨s.recalculate_eq volatile, (s.satisfiesM_pass volatile).imp fun {p} hp => ?_⟩
  have hcount : p.recalculation.stats.circular = {a | Walk.Finds s s.addresses a}.ncard := by
    simp only [← hp.mem_cyclic_iff]
    exact Pass.size_eq_ncard p.cyclic
  have hsub : {a | Walk.Finds s s.addresses a} ⊆ {a | s.OnCycle a} := fun a ha => ha.onCycle
  have hfinite : {a | s.OnCycle a}.Finite := by
    refine (List.finite_toSet p.settled.keys).subset fun a ha => ?_
    exact Std.TreeMap.mem_keys.mpr (hp.mem_settled_of_onCycle ha)
  refine ⟨fun a ha => ?_, hcount, ?_, fun a program hprogram hf hvolatile => ?_⟩
  · rw [← hp.mem_cyclic_iff]
    exact and_iff_left_of_imp hp.getElem?_of_mem_cyclic
  · rw [hcount]
    constructor
    · exact fun h => (Set.eq_of_subset_of_ncard_le hsub h.ge hfinite).ge
    · exact fun h => congrArg Set.ncard (hsub.antisymm h)
  · have hsettled : a ∈ p.settled := hp.mem_settled_iff.mpr (isSome_of_program? hprogram)
    exact hp.shows.formula a hsettled (mt hp.mem_cyclic_iff.mp hf) program hprogram hvolatile

theorem crossing_onCycle : crossing.OnCycle ⟨0, 2⟩ := by
  obtain ⟨hAB, hBA, hCB⟩ := crossing_reads
  have hAC : crossing.Reads ⟨0, 0⟩ ⟨0, 2⟩ := by simp [Reads, crossing_readsOf]
  exact ((TransGen.single hCB).tail hBA).tail hAC

/-- When the walk goes to `B1`, no cell is finished; when it goes to `C1`, the only cell that `C1`
reads is. -/
theorem crossing_arrives : Walk.Arrives crossing crossing.addresses ⟨0, 1⟩ [] ∧
    Walk.Arrives crossing crossing.addresses ⟨0, 2⟩ [⟨0, 1⟩] := by
  constructor
  · exact ⟨[.visit ⟨0, 2⟩, .finish ⟨0, 0⟩, .visit ⟨0, 1⟩, .visit ⟨0, 2⟩, .visit ⟨0, 3⟩,
      .visit ⟨0, 4⟩], ⟨1, by decide +kernel⟩, by decide +kernel⟩
  · exact ⟨[.finish ⟨0, 0⟩, .visit ⟨0, 1⟩, .visit ⟨0, 2⟩, .visit ⟨0, 3⟩, .visit ⟨0, 4⟩],
      ⟨4, by decide +kernel⟩, by decide +kernel⟩

theorem crossing_not_finds : ¬ Walk.Finds crossing crossing.addresses ⟨0, 2⟩ := by
  rw [crossing_arrives.2.finds_iff]
  intro hc
  obtain ⟨b, ⟨hb, hout⟩, -⟩ := TransGen.head'_iff.mp hc
  rw [Reads, crossing_readsOf.2.2] at hb
  exact hout hb

theorem crossing_finds : Walk.Finds crossing crossing.addresses ⟨0, 1⟩ := by
  obtain ⟨hAB, hBA, -⟩ := crossing_reads
  refine ⟨[], crossing_arrives.1, ?_⟩
  exact (TransGen.single ⟨hBA, List.not_mem_nil⟩).tail ⟨hAB, List.not_mem_nil⟩

/-- `C1` shows a number: it reads the marker of a cycle in `B1` as zero. -/
theorem crossing_one {p : Pass} (hp : Pass.Complete crossing crossing.addresses p) :
    p.settled[(⟨0, 2⟩ : Address)]? = some "1" := by
  have hB : viewOf p.settled ⟨0, 1⟩ = .ofShown Marker.cycle.text := by
    rw [viewOf, hp.getElem?_of_mem_cyclic (hp.mem_cyclic_iff.mpr crossing_finds)]
  have hprogram : crossing.program? ⟨0, 2⟩ = some (Program.ofSource {} "=B1+1") := by decide +kernel
  have hcells : (Program.ofSource {} "=B1+1").cells = [⟨0, 1⟩] := by decide +kernel
  have hvolatile : (Program.ofSource {} "=B1+1").callsVolatile = false := by decide +kernel
  have hsettled : (⟨0, 2⟩ : Address) ∈ p.settled := hp.mem_settled_iff.mpr (by decide +kernel)
  have hm : (⟨0, 2⟩ : Address) ∉ p.cyclic := mt hp.mem_cyclic_iff.mp crossing_not_finds
  rw [hp.shows.formula _ hsettled hm _ hprogram hvolatile,
    Program.shownFrom_single hcells hvolatile, hB]
  decide +kernel

/-- `C1` lies on a cycle, but does not show the marker of a cycle, and the count is wrong. -/
theorem crossing_misses : crossing.OnCycle ⟨0, 2⟩ ∧
    ∃ r, crossing.recalculate Pass.nothing = pure r ∧
      r.shown[(⟨0, 1⟩ : Address)]? = some Marker.cycle.text ∧
      r.shown[(⟨0, 2⟩ : Address)]? = some "1" ∧
      r.stats.circular ≠ {a | crossing.OnCycle a}.ncard := by
  obtain ⟨heq, hp⟩ := crossing.cyclic_iff_finds (m := Id) Pass.nothing
  obtain ⟨hcyclic, -, hcount, -⟩ := SatisfiesM_Id_eq.mp hp
  have hone := crossing_one (SatisfiesM_Id_eq.mp (crossing.satisfiesM_pass Pass.nothing))
  refine ⟨crossing_onCycle, _, heq, ?_, hone, fun h => ?_⟩
  · exact ((hcyclic ⟨0, 1⟩ crossing_finds.onCycle).mpr crossing_finds).2
  · exact crossing_not_finds (hcount.mp h _ crossing_onCycle)

end Store

end Spreadsheet
