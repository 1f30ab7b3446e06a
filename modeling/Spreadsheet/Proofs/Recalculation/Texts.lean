import Spreadsheet.Proofs.Recalculation.Cycles

/-! # The texts that a recalculation finds

If no formula calls a function that changes, a cell without a formula shows its own text and a
formula on no cycle shows what it makes of the texts that the sheet shows:
`Store.recalculate_shows`.

A formula outside the sheet is evaluated in a pass of its own, which goes to the cells that the
formula reads. It sees the same as a recalculation shows exactly if every cell that only one of
the two passes finds on a cycle passes on what the marker of a cycle does: `Store.evaluate_eq`. -/

namespace Spreadsheet

open Relation

namespace Pass.Complete

variable {s : Store} {roots roots' : List Address} {p q : Pass} {a b : Address} {program : Program}

/-! ### What the cells pass on -/

theorem viewOf_eq_empty (h : Complete s roots p) (ha : s.get? a = none) :
    viewOf p.settled a = .empty := by
  have hs : a ∉ p.settled := fun hs => by simpa [ha] using h.stored a hs
  rw [viewOf, Std.TreeMap.getElem?_eq_none hs]

theorem viewOf_literal (h : Complete s roots p) (ha : a ∈ p.settled) {text : String}
    (ht : s.get? a = some text) (hf : isFormula text = false) :
    viewOf p.settled a = .ofShown text := by
  rw [viewOf, h.shows.literal a ha text ht hf]

theorem viewOf_marked (h : Complete s roots p) (hm : a ∈ p.cyclic) :
    viewOf p.settled a = .ofShown Marker.cycle.text := by
  rw [viewOf, h.getElem?_of_mem_cyclic hm]

theorem viewOf_formula (hs : s.Steady) (h : Complete s roots p) (ha : a ∈ p.settled)
    (hm : a ∉ p.cyclic) (hp : s.program? a = some program) :
    viewOf p.settled a = .ofShown (program.shownFrom (viewOf p.settled)) := by
  rw [viewOf, h.shows.formula a ha hm program hp (hs a program hp)]

/-- Two finished passes give a formula the same text if the cells it reads pass on the same. -/
theorem shownFrom_congr (hq : Complete s roots q) (hp : Complete s roots' p)
    (h : ∀ b ∈ program.reads s, viewOf q.settled b = viewOf p.settled b)
    (hprogram : program.callsVolatile = false) :
    program.shownFrom (viewOf q.settled) = program.shownFrom (viewOf p.settled) := by
  refine Program.shownFrom_congr (fun b hb => ?_) hprogram
  cases ht : s.get? b with
  | some text => exact h b (Store.mem_reads.mpr ⟨hb, by simp [ht]⟩)
  | none => rw [hq.viewOf_eq_empty ht, hp.viewOf_eq_empty ht]

end Pass.Complete

namespace Store

/-- A formula outside the sheet that reads the cells `roots` depends on the cell: it is one of
them, or a cell reads it that the formula depends on and that the walk to `roots` finds on no
cycle. -/
def DependsOn (s : Store) (roots : List Address) (a : Address) : Prop :=
  ∃ r ∈ roots, ReflTransGen (fun b c => s.Reads b c ∧ ¬ Walk.Finds s roots b) r a

variable {s : Store} {roots : List Address} {p q : Pass} {a b : Address} {program : Program}

theorem DependsOn.tail (h : s.DependsOn roots a) (hm : ¬ Walk.Finds s roots a) (hab : s.Reads a b) :
    s.DependsOn roots b := by
  obtain ⟨r, hr, hra⟩ := h
  exact ⟨r, hr, hra.tail ⟨hab, hm⟩⟩

theorem DependsOn.isSome (hroots : ∀ r ∈ roots, (s.get? r).isSome) (h : s.DependsOn roots a) :
    (s.get? a).isSome := by
  obtain ⟨r, hr, hra⟩ := h
  rcases ReflTransGen.cases_tail hra with rfl | ⟨b, -, hba⟩
  · exact hroots _ hr
  · exact hba.1.isSome

theorem DependsOn.mem_settled (hq : Pass.Complete s roots q)
    (hroots : ∀ r ∈ roots, (s.get? r).isSome) (h : s.DependsOn roots a) : a ∈ q.settled := by
  obtain ⟨r, hr, hra⟩ := h
  induction hra with
  | refl => exact hq.roots_settled r hr (hroots r hr)
  | tail _ hbc ih => exact hq.reads_settled _ ih _ hbc.1

/-- A cell that only one of the walks to `roots` and through the sheet finds on a cycle passes on
what the marker of a cycle does, if the cells show the given texts. There is no such cell where the
two walks find the same ones, as they do in a sheet without cycles. -/
def MarksHarmless (s : Store) (roots : List Address) (shown : Std.TreeMap Address String) : Prop :=
  ∀ a program, s.DependsOn roots a → s.program? a = some program →
    ¬ (Walk.Finds s roots a ↔ Walk.Finds s s.addresses a) →
    Scalar.ofShown (program.shownFrom (viewOf shown)) = .ofShown Marker.cycle.text

section

variable (hs : s.Steady) (hroots : ∀ r ∈ roots, (s.get? r).isSome)
  (hq : Pass.Complete s roots q) (hp : Pass.Complete s s.addresses p)

include hs hroots hq hp

/-- What the pass over `roots` sees of a formula that it does not mark, if it sees of the cells read
there what the pass over the sheet shows. -/
theorem DependsOn.viewOf_unmarked (ha : s.DependsOn roots a) (hm : ¬ Walk.Finds s roots a)
    (hprogram : s.program? a = some program)
    (hagree : ∀ b, s.Reads a b → s.DependsOn roots b → viewOf q.settled b = viewOf p.settled b) :
    viewOf q.settled a = .ofShown (program.shownFrom (viewOf p.settled)) := by
  have haq : a ∈ q.settled := ha.mem_settled hq hroots
  rw [hq.viewOf_formula hs haq (mt (hq.found a haq).mp hm) hprogram]
  refine congrArg _ (hq.shownFrom_congr hp (fun b hb => ?_) (hs a program hprogram))
  have hab : s.Reads a b := by rwa [Reads, readsOf_program hprogram]
  exact hagree b hab (ha.tail hm hab)

theorem marksHarmless_of_agree
    (hagree : ∀ a, s.DependsOn roots a → viewOf q.settled a = viewOf p.settled a) :
    s.MarksHarmless roots p.settled := by
  intro a program ha hprogram hdiffer
  have haq : a ∈ q.settled := ha.mem_settled hq hroots
  have hap : a ∈ p.settled := hp.mem_settled_iff.mpr (ha.isSome hroots)
  by_cases hm : Walk.Finds s roots a
  · have hmp : a ∉ p.cyclic := mt hp.mem_cyclic_iff.mp fun h => hdiffer (iff_of_true hm h)
    rw [← hp.viewOf_formula hs hap hmp hprogram, ← hagree a ha]
    exact hq.viewOf_marked ((hq.found a haq).mpr hm)
  · have hmp : a ∈ p.cyclic := by
      by_contra hmp
      exact hdiffer (iff_of_false hm (mt hp.mem_cyclic_iff.mpr hmp))
    rw [← ha.viewOf_unmarked hs hroots hq hp hm hprogram fun b _ => hagree b, hagree a ha]
    exact hp.viewOf_marked hmp

theorem agree_of_marksHarmless (hharmless : s.MarksHarmless roots p.settled)
    (ha : s.DependsOn roots a) : viewOf q.settled a = viewOf p.settled a := by
  -- the cells that the pass over `roots` does not mark read each other in no circle
  have hacc := hq.shows.grounded a (ha.mem_settled hq hroots)
  induction hacc with
  | intro a _ ih =>
    have haq : a ∈ q.settled := ha.mem_settled hq hroots
    have hap : a ∈ p.settled := hp.mem_settled_iff.mpr (ha.isSome hroots)
    obtain ⟨text, ht⟩ := Option.isSome_iff_exists.mp (ha.isSome hroots)
    cases hf : isFormula text with
    | false => rw [hq.viewOf_literal haq ht hf, hp.viewOf_literal hap ht hf]
    | true =>
      have hprogram := program?_formula ht hf
      by_cases hm : Walk.Finds s roots a
      · rw [hq.viewOf_marked ((hq.found a haq).mpr hm)]
        by_cases hmp : a ∈ p.cyclic
        · rw [hp.viewOf_marked hmp]
        · rw [hp.viewOf_formula hs hap hmp hprogram]
          exact (hharmless a _ ha hprogram fun h => hmp (hp.mem_cyclic_iff.mpr (h.mp hm))).symm
      · have hmq : a ∉ q.cyclic := mt (hq.found a haq).mp hm
        rw [ha.viewOf_unmarked hs hroots hq hp hm hprogram fun b hab hb => ih b ⟨hab, hmq⟩ hb]
        by_cases hmp : a ∈ p.cyclic
        · rw [hp.viewOf_marked hmp]
          exact hharmless a _ ha hprogram fun h => hm (h.mpr (hp.mem_cyclic_iff.mp hmp))
        · rw [hp.viewOf_formula hs hap hmp hprogram]

end

/-! ### Recalculations -/

section

variable {m : Type → Type} [Monad m] [LawfulMonad m]

theorem exists_recalculation (hs : s.Steady) (volatile : Volatile → m Scalar) :
    ∃ p, Pass.Complete s s.addresses p ∧ s.recalculate volatile = pure p.recalculation := by
  obtain ⟨p, hp, hpass⟩ := Pass.exists_complete hs volatile s.addresses
  refine ⟨p, hp, ?_⟩
  rw [recalculate_eq, pass, hpass, map_pure]

/-- **What the cells of a sheet show**, if no formula calls a function that changes. The
recalculation has no effects; it shows the cells with a text and no others; a cell without a
formula shows its own text; and a formula on no cycle shows what it makes of what the sheet shows.
-/
theorem recalculate_shows (hs : s.Steady) (volatile : Volatile → m Scalar) :
    ∃ r, s.recalculate volatile = pure r ∧
      (∀ a, a ∈ r.shown ↔ (s.get? a).isSome) ∧
      (∀ a text, s.get? a = some text → isFormula text = false → r.shown[a]? = some text) ∧
      ∀ a program, s.program? a = some program → ¬ s.OnCycle a →
        r.shown[a]? = some (program.shownFrom (viewOf r.shown)) := by
  obtain ⟨p, hp, hr⟩ := exists_recalculation hs volatile
  refine ⟨p.recalculation, hr, fun a => hp.mem_settled_iff, fun a text ht hf => ?_,
    fun a program hprogram hcycle => ?_⟩
  · exact hp.shows.literal a (hp.mem_settled_iff.mpr (by simp [ht])) text ht hf
  · have hsettled : a ∈ p.settled := hp.mem_settled_iff.mpr (isSome_of_program? hprogram)
    have hm : a ∉ p.cyclic := fun hm => hcycle (hp.mem_cyclic_iff.mp hm).onCycle
    exact hp.shows.formula a hsettled hm program hprogram (hs a program hprogram)

theorem crossing_not_onCycle : ¬ crossing.OnCycle ⟨0, 3⟩ := by
  intro hc
  obtain ⟨b, -, hb⟩ := TransGen.tail'_iff.mp hc
  obtain ⟨program, hprogram, -⟩ := hb.program?
  have hnone : ∀ a ∈ crossing.addresses, ¬ crossing.Reads a ⟨0, 3⟩ := by decide +kernel
  exact hnone b (mem_addresses.mpr (isSome_of_program? hprogram)) hb

/-- `D1` reads `C1`, which lies on cycles. -/
theorem crossing_shows : crossing.Steady ∧ ∃ r, crossing.recalculate Pass.nothing = pure r ∧
    r.shown[(⟨0, 4⟩ : Address)]? = some "total" ∧
    r.shown[(⟨0, 3⟩ : Address)]? =
      some ((Program.ofSource {} "=NOT(C1)").shownFrom (viewOf r.shown)) := by
  have hs : crossing.Steady := by decide +kernel
  obtain ⟨r, hr, -, hliteral, hformula⟩ := recalculate_shows (m := Id) hs Pass.nothing
  refine ⟨hs, r, hr, hliteral _ _ (by decide +kernel) (by decide +kernel), ?_⟩
  exact hformula _ _ (by decide +kernel) crossing_not_onCycle

/-- **What a formula outside the sheet sees**, if neither it nor a formula in the sheet calls a
function that changes. It shows what it makes of what a pass over the cells it reads shows. Among
the cells it depends on, that pass sees what the recalculation shows exactly if the marks in which
the two differ are harmless; and if they are, the formula shows what it makes of what the sheet
shows. -/
theorem evaluate_eq (hs : s.Steady) (volatile : Volatile → m Scalar) (source : String)
    (hsource : (Program.ofSource s.limits source).callsVolatile = false) :
    ∃ r q, s.recalculate volatile = pure r ∧
      Pass.visitAll s volatile {} ((Program.ofSource s.limits source).reads s) = pure q ∧
      s.evaluate volatile source =
        pure ((Program.ofSource s.limits source).shownFrom (viewOf q.settled)) ∧
      ((∀ a, s.DependsOn ((Program.ofSource s.limits source).reads s) a →
          viewOf q.settled a = viewOf r.shown a) ↔
        s.MarksHarmless ((Program.ofSource s.limits source).reads s) r.shown) ∧
      (s.MarksHarmless ((Program.ofSource s.limits source).reads s) r.shown →
        s.evaluate volatile source =
          pure ((Program.ofSource s.limits source).shownFrom (viewOf r.shown))) := by
  obtain ⟨p, hp, hr⟩ := exists_recalculation hs volatile
  obtain ⟨q, hq, hvisit⟩ :=
    Pass.exists_complete hs volatile ((Program.ofSource s.limits source).reads s)
  have hroots : ∀ r ∈ (Program.ofSource s.limits source).reads s, (s.get? r).isSome :=
    fun r hr => (mem_reads.mp hr).2
  have heval : s.evaluate volatile source =
      pure ((Program.ofSource s.limits source).shownFrom (viewOf q.settled)) := by
    have hcell : ∀ a ∈ (Program.ofSource s.limits source).cells,
        (q.source volatile).cell a = pure (viewOf q.settled a) := by
      intro a _
      rw [← hq.reading]
      rfl
    rw [evaluate, hvisit, pure_bind, Program.shown_eq_pure hcell hsource]
  refine ⟨p.recalculation, q, hr, hvisit, heval, ?_, fun hharmless => ?_⟩
  · constructor
    · exact marksHarmless_of_agree hs hroots hq hp
    · exact fun hharmless a => agree_of_marksHarmless hs hroots hq hp hharmless
  · rw [heval]
    refine congrArg pure (hq.shownFrom_congr hp (fun a ha => ?_) hsource)
    exact agree_of_marksHarmless hs hroots hq hp hharmless ⟨a, ha, ReflTransGen.refl⟩

theorem crossing_finds_from : Walk.Finds crossing [⟨0, 2⟩] ⟨0, 2⟩ := by
  refine ⟨[], ⟨[], ⟨0, rfl⟩, by decide +kernel⟩, ?_⟩
  exact TransGen.mono (fun _ _ hab => ⟨hab, List.not_mem_nil⟩) _ _ crossing_onCycle

/-- The pass for `=C1+1` finds `C1` on a cycle, which the recalculation does not. -/
theorem crossing_evaluate : crossing.Steady ∧
    (Program.ofSource crossing.limits "=C1+1").callsVolatile = false ∧
    ∃ r, crossing.recalculate Pass.nothing = pure r ∧
      crossing.evaluate Pass.nothing "=C1+1" = pure "1" ∧
      (Program.ofSource crossing.limits "=C1+1").shownFrom (viewOf r.shown) = "2" ∧
      ¬ crossing.MarksHarmless [⟨0, 2⟩] r.shown := by
  have hs : crossing.Steady := by decide +kernel
  have hsource : (Program.ofSource crossing.limits "=C1+1").callsVolatile = false := by
    decide +kernel
  have hreads : (Program.ofSource crossing.limits "=C1+1").reads crossing = [⟨0, 2⟩] := by
    decide +kernel
  have hcells : (Program.ofSource crossing.limits "=C1+1").cells = [⟨0, 2⟩] := by decide +kernel
  obtain ⟨r, q, hr, hvisit, heval, -, hharmless⟩ :=
    evaluate_eq (m := Id) hs Pass.nothing "=C1+1" hsource
  rw [hreads] at hvisit hharmless
  have hp := SatisfiesM_Id_eq.mp (crossing.satisfiesM_pass Pass.nothing)
  have hq := SatisfiesM_Id_eq.mp (Pass.satisfiesM_visitAll crossing Pass.nothing [⟨0, 2⟩])
  rw [hvisit] at hq
  have hseen : viewOf q.settled ⟨0, 2⟩ = .ofShown Marker.cycle.text := by
    have hstored : (crossing.get? ⟨0, 2⟩).isSome := by decide +kernel
    exact hq.viewOf_marked ((hq.found _ (hq.roots_settled _ (by simp) hstored)).mpr
      crossing_finds_from)
  have hshown : viewOf r.shown ⟨0, 2⟩ = .ofShown "1" := by
    rw [recalculate_eq] at hr
    obtain rfl : Pass.recalculation (crossing.pass Pass.nothing) = r := hr
    rw [viewOf, Pass.recalculation, crossing_one hp]
  have hone : (Program.ofSource crossing.limits "=C1+1").shownFrom (viewOf q.settled) = "1" := by
    rw [Program.shownFrom_single hcells hsource, hseen]
    decide +kernel
  have htwo : (Program.ofSource crossing.limits "=C1+1").shownFrom (viewOf r.shown) = "2" := by
    rw [Program.shownFrom_single hcells hsource, hshown]
    decide +kernel
  rw [hone] at heval
  refine ⟨hs, hsource, r, hr, heval, htwo, fun h => ?_⟩
  have hsame := hharmless h
  rw [heval, htwo] at hsame
  exact absurd (show "1" = "2" from hsame) (by decide)

end

end Store

end Spreadsheet
