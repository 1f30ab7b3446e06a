import Spreadsheet.Proofs.Pass.Record
import Spreadsheet.Proofs.Recalculation.Cycles

/-! # What a recalculation counts

A recalculation compiles every formula of the sheet once and finishes every cell of the sheet once,
however many formulas read the cell and whether or not it lies on a cycle; so its counts are right:
`Store.recalculate_counts`. Both are said of the record of its pass, which holds what the pass
compiles and finishes (`Pass.Record`). -/

namespace Spreadsheet

/-! ### Cells and formulas -/

theorem nodup_keys (map : Std.TreeMap Address String) : map.keys.Nodup := by
  refine map.distinct_keys.imp fun {a b} hab => ?_
  rintro rfl
  exact hab Std.ReflCmp.compare_self

namespace Store

variable {s : Store} {a : Address} {text : String}

theorem nodup_addresses (s : Store) : s.addresses.Nodup := nodup_keys s.cells

theorem isSome_of_isSome_program? (h : (s.program? a).isSome) : (s.get? a).isSome := by
  obtain ⟨program, hprogram⟩ := Option.isSome_iff_exists.mp h
  exact isSome_of_program? hprogram

theorem isSome_program? (ht : s.get? a = some text) : (s.program? a).isSome = isFormula text := by
  cases hf : isFormula text with
  | true => rw [program?_formula ht hf, Option.isSome_some]
  | false => rw [program?_literal ht hf, Option.isSome_none]

/-- The formulas of a sheet are counted over its texts or over its cells. -/
theorem countP_isFormula (s : Store) :
    (s.toList.countP fun c => isFormula c.2) =
      s.addresses.countP fun a => (s.program? a).isSome := by
  rw [← map_fst_toList, List.countP_map]
  refine List.countP_congr fun c hc => ?_
  rw [Function.comp_apply, isSome_program? (mem_toList.mp hc)]

end Store

namespace Pass

variable {s : Store} {p : Pass} {a : Address}

/-! ### What is on record in the end -/

theorem Complete.keys_perm (h : Complete s s.addresses p) : p.settled.keys.Perm s.addresses := by
  refine (List.perm_ext_iff_of_nodup (nodup_keys _) s.nodup_addresses).mpr fun a => ?_
  rw [Std.TreeMap.mem_keys, h.mem_settled_iff, Store.mem_addresses]

theorem Complete.size_eq (h : Complete s s.addresses p) : p.settled.size = s.size := by
  rw [← Std.TreeMap.length_keys, h.keys_perm.length_eq, Store.addresses, Std.TreeMap.length_keys,
    Store.size]

namespace Record

variable {r : Record}

theorem Finishes.perm (h : r.Finishes) : r.finished.Perm r.pass.recalculation.toList := by
  have hnodup : r.pass.settled.toList.Nodup := by
    refine List.Nodup.of_map Prod.fst ?_
    rw [Std.TreeMap.map_fst_toList_eq_keys]
    exact nodup_keys r.pass.settled
  refine (List.perm_ext_iff_of_nodup h.nodup.of_map hnodup).mpr fun ⟨a, text⟩ => ?_
  rw [h.mem_iff, Std.TreeMap.mem_toList_iff_getElem?_eq_some]

theorem Finishes.count_eq (hp : Complete s s.addresses r.pass) (h : r.Finishes) (a : Address) :
    (r.finished.map Prod.fst).count a = if (s.get? a).isSome then 1 else 0 := by
  have hperm : (r.finished.map Prod.fst).Perm s.addresses := by
    refine (h.perm.map Prod.fst).trans ?_
    rw [Recalculation.toList, Std.TreeMap.map_fst_toList_eq_keys]
    exact hp.keys_perm
  simp only [hperm.count_eq, s.nodup_addresses.count, Store.mem_addresses]

/-- A marked cell shows a marker, so there are not more marked cells than errors. -/
theorem Finishes.circular_le {roots : List Address} (hp : Complete s roots r.pass)
    (h : r.Finishes) : r.pass.stats.circular ≤ r.pass.stats.errors := by
  let failed := (r.finished.filter fun e => (Marker.ofText? e.2).isSome).map Prod.fst
  have hmem : r.pass.cyclic.toList ⊆ failed := by
    intro a ha
    have hm : a ∈ r.pass.cyclic := Std.TreeSet.mem_toList.mp ha
    have hfinished : (a, Marker.cycle.text) ∈ r.finished :=
      (h.mem_iff a _).mpr (hp.getElem?_of_mem_cyclic hm)
    refine List.mem_map_of_mem (List.mem_filter.mpr ⟨hfinished, ?_⟩)
    rw [Marker.ofText?_text, Option.isSome_some]
  have hle := (List.subperm_of_subset (nodup_toList r.pass.cyclic) hmem).length_le
  rw [Std.TreeSet.length_toList, List.length_map, ← List.countP_eq_length_filter, ← h.errors] at hle
  exact hle

theorem Compiles.mem_compiled_iff (hp : Complete s s.addresses r.pass) (hw : r.pass.waiting = [])
    (h : r.Compiles s) : a ∈ r.compiled ↔ (s.program? a).isSome := by
  rw [h.mem_iff, hp.mem_settled_iff, line, hw]
  exact and_iff_left_of_imp fun hprogram => Or.inl (Store.isSome_of_isSome_program? hprogram)

theorem Compiles.perm (hp : Complete s s.addresses r.pass) (hw : r.pass.waiting = [])
    (h : r.Compiles s) : r.compiled.Perm (s.addresses.filter fun a => (s.program? a).isSome) := by
  refine (List.perm_ext_iff_of_nodup h.nodup (s.nodup_addresses.filter _)).mpr fun a => ?_
  rw [h.mem_compiled_iff hp hw, List.mem_filter, Store.mem_addresses]
  exact (and_iff_right_of_imp Store.isSome_of_isSome_program?).symm

/-- The formulas that call a function that changes are counted over all cells. -/
theorem Compiles.volatile_eq (hp : Complete s s.addresses r.pass) (hw : r.pass.waiting = [])
    (h : r.Compiles s) : r.pass.stats.volatile =
      s.addresses.countP fun a => (s.program? a).any Program.callsVolatile := by
  show r.pass.volatile = _
  rw [h.volatile, (h.perm hp hw).countP_eq, List.countP_filter]
  refine List.countP_congr fun a _ => ?_
  cases s.program? a <;> simp

end Record

end Pass

/-! ### The counts -/

namespace Store

variable {m : Type → Type} [Monad m] [LawfulMonad m]

open Pass

/-- **The counts of a recalculation are right.** The recalculation is the one of a pass that keeps a
record. On record every formula is compiled once and every cell finished once, with the text that
the recalculation shows for it. The counts are those of the formulas, of the cells, of the formulas
that call a function that changes, and of the shown texts that are markers; and the cells counted as
cyclic are not more than these. -/
theorem recalculate_counts (s : Store) (volatile : Volatile → m Scalar) :
    s.recalculate volatile =
      (fun r => r.pass.recalculation) <$> Record.visitAll s volatile {} s.addresses ∧
    SatisfiesM (fun r =>
      (∀ a, r.compiled.count a = if (s.program? a).isSome then 1 else 0) ∧
      (∀ a, (r.finished.map Prod.fst).count a = if (s.get? a).isSome then 1 else 0) ∧
      r.finished.Perm r.pass.recalculation.toList ∧
      r.pass.recalculation.stats.formulas = (s.toList.countP fun c => isFormula c.2) ∧
      r.pass.recalculation.stats.calculated = s.size ∧
      r.pass.recalculation.stats.volatile =
        (s.addresses.countP fun a => (s.program? a).any Program.callsVolatile) ∧
      r.pass.recalculation.stats.errors =
        (r.pass.recalculation.toList.countP fun c => (Marker.ofText? c.2).isSome) ∧
      r.pass.recalculation.stats.circular ≤ r.pass.recalculation.stats.errors)
      (Record.visitAll s volatile {} s.addresses) := by
  have hpass : s.pass volatile = Record.pass <$> Record.visitAll s volatile {} s.addresses :=
    (Record.pass_visitAll {} s.addresses).symm
  refine ⟨by rw [recalculate_eq, hpass, Functor.map_map], ?_⟩
  refine (Record.satisfiesM_complete s volatile s.addresses).imp fun {r} ⟨hw, hp, h⟩ => ?_
  have hcompiled := h.compiles.perm hp hw
  have hfinished := h.finishes.perm
  refine ⟨fun a => ?_, h.finishes.count_eq hp, hfinished, ?_, hp.size_eq,
    h.compiles.volatile_eq hp hw, ?_, h.finishes.circular_le hp⟩
  · simp only [h.compiles.nodup.count, h.compiles.mem_compiled_iff hp hw]
  · rw [countP_isFormula, List.countP_eq_length_filter, ← hcompiled.length_eq]
    exact h.compiles.formulas
  · rw [← hfinished.countP_eq]
    exact h.finishes.errors

/-- `B1` is read by two formulas and lies on two cycles, but is compiled once. -/
theorem crossing_stats : ∃ r : Record,
    crossing.recalculate Pass.nothing = pure r.pass.recalculation ∧ r.compiled.count ⟨0, 1⟩ = 1 ∧
    r.pass.recalculation.stats.formulas = 4 ∧ r.pass.recalculation.stats.calculated = 5 := by
  obtain ⟨heq, hr⟩ := crossing.recalculate_counts (m := Id) Pass.nothing
  obtain ⟨hcompiled, -, -, hformulas, hcalculated, -⟩ := SatisfiesM_Id_eq.mp hr
  have hB : crossing.get? ⟨0, 1⟩ = some "=A1" := by cbv
  have hprogram : (crossing.program? ⟨0, 1⟩).isSome := by
    rw [isSome_program? hB]
    cbv
  refine ⟨_, heq, (hcompiled ⟨0, 1⟩).trans (if_pos hprogram), hformulas.trans ?_,
    hcalculated.trans ?_⟩
  · cbv
  · cbv

end Store

end Spreadsheet
