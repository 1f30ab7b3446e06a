import Spreadsheet.Proofs.Pass.Turn

/-! # The line of waiting formulas

The cells that wait form a line: each is read by the one behind it, and none of them waits twice or
is settled. What the waiting formulas have read and what the settled cells read is settled or waits
(`Pass.Closed`). All turns keep this: `Pass.Sound.invariant`. -/

namespace Spreadsheet.Pass

open Std

variable {s : Store} {next : List Address} {p q : Pass} {a b : Address} {text : String}

/-! ### What is read is settled in time -/

/-- What the formulas `group` read is about to be started on, is still to be read, is settled, or is
among the waiting cells `inner`; and what the settled cells read is settled or among `inner`, those
cells left out that are among `finished`. -/
structure Closed (s : Store) (next : List Address) (p : Pass) (finished : List Address)
    (group : List Frame) (inner : List Address) : Prop where
  settled : ∀ a ∈ p.settled, a ∉ finished → ∀ b, s.Reads a b → b ∈ p.settled ∨ b ∈ inner
  waiting : ∀ f ∈ group, ∀ b, s.Reads f.address b →
    b ∈ next ∨ b ∈ f.unread ∨ b ∈ p.settled ∨ b ∈ inner

namespace Closed

variable {finished inner : List Address} {group : List Frame} {f : Frame}

theorem take {unread : List Address} {rest : List Frame} (hu : f.unread = a :: unread)
    (h : Closed s [] p finished (f :: group) inner) :
    Closed s [a] { p with waiting := rest } finished ({ f with unread } :: group) inner where
  settled := h.settled
  waiting g hg b hb := by
    rcases List.mem_cons.mp hg with rfl | hg
    · have := h.waiting f List.mem_cons_self b hb
      rw [hu] at this
      simp only [List.mem_cons, List.not_mem_nil, false_or] at this ⊢
      tauto
    · exact Or.inr ((h.waiting g (List.mem_cons_of_mem f hg) b hb).resolve_left (by simp))

theorem skip (hskip : s.get? a = none ∨ a ∈ p.settled) (h : Closed s [a] p finished group inner) :
    Closed s [] p finished group inner where
  settled := h.settled
  waiting f hf b hb := by
    rcases h.waiting f hf b hb with hba | hb'
    · obtain rfl : b = a := by simpa using hba
      rcases hskip with hnone | hs
      · have := hb.isSome
        simp [hnone] at this
      · exact Or.inr (Or.inr (Or.inl hs))
    · exact Or.inr hb'

theorem loop (ha : a ∈ inner) (h : Closed s [a] p finished group inner) :
    Closed s [] (p.closeCycle a) finished group inner where
  settled := h.settled
  waiting f hf b hb := by
    rcases h.waiting f hf b hb with hba | hb'
    · obtain rfl : b = a := by simpa using hba
      exact Or.inr (Or.inr (Or.inr ha))
    · exact Or.inr hb'

/-- A new frame joins the group, and its cell the waiting ones. -/
theorem suspend (hnew : ∀ b, s.Reads f.address b → b ∈ f.unread)
    (h : Closed s [f.address] p finished group inner) :
    Closed s [] (p.suspend s f.address text) finished (f :: group) (f.address :: inner) where
  settled c hc hcf b hb := (h.settled c hc hcf b hb).imp_right (List.mem_cons_of_mem _)
  waiting g hg b hb := by
    rcases List.mem_cons.mp hg with rfl | hg
    · exact Or.inr (Or.inl (hnew b hb))
    · rcases h.waiting g hg b hb with hb | hb | hb | hb
      · exact Or.inr (Or.inr (Or.inr (by simpa using Or.inl hb)))
      · exact Or.inr (Or.inl hb)
      · exact Or.inr (Or.inr (Or.inl hb))
      · exact Or.inr (Or.inr (Or.inr (List.mem_cons_of_mem _ hb)))

theorem literal (ha : s.program? a = none) (h : Closed s [a] p finished group inner) :
    Closed s [] (p.settle a text) finished group inner where
  settled c hc hcf b hb := by
    rcases mem_settled_settle.mp hc with rfl | hc
    · obtain ⟨r, hr, -⟩ := hb.program?
      rw [ha] at hr
      cases hr
    · exact (h.settled c hc hcf b hb).imp_left fun hb => mem_settled_settle.mpr (Or.inr hb)
  waiting f hf b hb := by
    rcases h.waiting f hf b hb with hb | hb | hb | hb
    · exact Or.inr (Or.inr (Or.inl (mem_settled_settle.mpr (Or.inl (by simpa [eq_comm] using hb)))))
    · exact Or.inr (Or.inl hb)
    · exact Or.inr (Or.inr (Or.inl (mem_settled_settle.mpr (Or.inr hb))))
    · exact Or.inr (Or.inr (Or.inr hb))

/-- A formula that has read everything leaves the group, and its cell the waiting ones. -/
theorem finish {rest : List Frame} (hu : f.unread = [])
    (h : Closed s [] p finished (f :: group) (f.address :: inner)) :
    Closed s [] (settle { p with waiting := rest } f.address text) finished group inner := by
  -- what was settled or waited still does, or has just been settled
  have hmove : ∀ b, b ∈ p.settled ∨ b ∈ f.address :: inner →
      b ∈ (settle { p with waiting := rest } f.address text).settled ∨ b ∈ inner := by
    rintro b (hb | hb)
    · exact Or.inl (mem_settled_settle.mpr (Or.inr hb))
    · rcases List.mem_cons.mp hb with rfl | hb
      · exact Or.inl (mem_settled_settle.mpr (Or.inl rfl))
      · exact Or.inr hb
  constructor
  · intro c hc hcf b hb
    rcases mem_settled_settle.mp hc with rfl | hc
    · have := h.waiting f List.mem_cons_self b hb
      rw [hu] at this
      exact hmove b (by simpa using this)
    · exact hmove b (h.settled c hc hcf b hb)
  · intro g hg b hb
    rcases h.waiting g (List.mem_cons_of_mem f hg) b hb with hb | hb | hb
    · exact Or.inl hb
    · exact Or.inr (Or.inl hb)
    · exact Or.inr (Or.inr (hmove b hb))

end Closed

/-! ### The line -/

/-- A pass that is about to start on the cells `next`, for the latest waiting formula. -/
structure Sound (s : Store) (next : List Address) (p : Pass) : Prop where
  underway_iff : ∀ a, a ∈ p.underway ↔ a ∈ p.line
  nodup : p.line.Nodup
  unsettled : ∀ a ∈ p.line, a ∉ p.settled
  program : ∀ f ∈ p.waiting, s.program? f.address = some f.program
  unread : ∀ f ∈ p.waiting, ∀ a ∈ f.unread, s.Reads f.address a
  linked : p.line.IsChain fun b a => s.Reads a b
  next_read : ∀ a ∈ p.line.head?, ∀ b ∈ next, s.Reads a b
  stored : ∀ a ∈ p.settled, (s.get? a).isSome
  marked : ∀ a ∈ p.cyclic, a ∈ p.settled ∨ a ∈ p.line
  closed : Closed s next p [] p.waiting p.line

namespace Sound

theorem initial : Sound s [] {} where
  underway_iff := by simp [line]
  nodup := List.nodup_nil
  unsettled := by simp [line]
  program := by simp
  unread := by simp
  linked := List.isChain_nil
  next_read := by simp
  stored := by simp
  marked := by simp
  closed := ⟨by simp, by simp⟩

theorem mem_line_of_mem_chainTo (hb : b ∈ p.chainTo a) (ha : a ∈ p.line) : b ∈ p.line := by
  rcases List.mem_cons.mp hb with rfl | hb
  · exact ha
  · exact (List.takeWhile_sublist _).subset hb

/-- A cell that is neither settled nor waits is not marked. -/
theorem unmarked (hs : a ∉ p.settled) (hu : a ∉ p.underway) (h : Sound s next p) :
    a ∉ p.cyclic := by
  intro hm
  rcases h.marked a hm with hm | hm
  · exact hs hm
  · exact hu ((h.underway_iff a).mpr hm)

theorem visit (hw : p.waiting = []) (h : Sound s [] p) : Sound s [a] p :=
  { h with
    next_read := by simp [line, hw]
    closed := ⟨h.closed.settled, by simp [hw]⟩ }

theorem take {f : Frame} {rest : List Frame} {unread : List Address} (hw : p.waiting = f :: rest)
    (hu : f.unread = a :: unread) (h : Sound s [] p) :
    Sound s [a] { p with waiting := { f with unread } :: rest } := by
  have hline : line { p with waiting := { f with unread } :: rest } = p.line := by simp [line, hw]
  have hf : f ∈ p.waiting := by simp [hw]
  have hrest : ∀ g ∈ rest, g ∈ p.waiting := fun g hg => by simp [hw, hg]
  constructor
  case underway_iff => simpa only [hline] using h.underway_iff
  case nodup => simpa only [hline] using h.nodup
  case unsettled => simpa only [hline] using h.unsettled
  case program =>
    rintro g hg
    rcases List.mem_cons.mp hg with rfl | hg
    · exact h.program f hf
    · exact h.program g (hrest g hg)
  case unread =>
    rintro g hg b hb
    rcases List.mem_cons.mp hg with rfl | hg
    · exact h.unread f hf b (by simp [hu, hb])
    · exact h.unread g (hrest g hg) b hb
  case linked => simpa only [hline] using h.linked
  case next_read =>
    simp only [hline]
    rintro c hc b hb
    obtain rfl : f.address = c := by simpa [line, hw] using hc
    exact h.unread f hf b (by simpa [hu] using Or.inl hb)
  case stored => exact h.stored
  case marked => simpa only [hline] using h.marked
  case closed =>
    rw [hline]
    have hclosed := h.closed
    rw [hw] at hclosed
    exact hclosed.take hu

theorem enter (he : Entered s p a q) (h : Sound s [a] p) : Sound s [] q := by
  cases he with
  | skip hskip => exact { h with next_read := by simp, closed := h.closed.skip hskip }
  | loop hs hu =>
    have ha : a ∈ p.line := (h.underway_iff a).mp hu
    refine { h with next_read := by simp, marked := fun b hb => ?_, closed := h.closed.loop ha }
    rcases mem_cyclic_closeCycle.mp hb with hb | hb
    · exact Or.inr (mem_line_of_mem_chainTo hb ha)
    · exact h.marked b hb
  | @formula text hs hu ht hf =>
    have hline : a ∉ p.line := fun ha => hu ((h.underway_iff a).mpr ha)
    have hprogram := Store.program?_formula ht hf
    have hreads : s.readsOf a = (Program.ofSource s.limits text).reads s :=
      Store.readsOf_program hprogram
    constructor
    case underway_iff =>
      intro b
      rw [mem_underway_suspend, line_suspend, List.mem_cons, h.underway_iff, eq_comm]
    case nodup => exact List.nodup_cons.mpr ⟨hline, h.nodup⟩
    case unsettled =>
      intro b hb
      rcases List.mem_cons.mp hb with rfl | hb
      · exact hs
      · exact h.unsettled b hb
    case program =>
      intro f hf
      rcases List.mem_cons.mp hf with rfl | hf
      · exact hprogram
      · exact h.program f hf
    case unread =>
      intro f hf b hb
      rcases List.mem_cons.mp hf with rfl | hf
      · rwa [Store.Reads, hreads]
      · exact h.unread f hf b hb
    case linked =>
      exact List.isChain_cons.mpr ⟨fun b hb => h.next_read b hb a List.mem_cons_self, h.linked⟩
    case next_read => simp
    case stored => exact h.stored
    case marked => exact fun b hb => (h.marked b hb).imp_right (List.mem_cons_of_mem a)
    case closed =>
      have hnew : ∀ b, s.Reads a b → b ∈ (Program.ofSource s.limits text).reads s :=
        fun b hb => by rwa [Store.Reads, hreads] at hb
      exact Closed.suspend (f := ⟨a, _, (Program.ofSource s.limits text).reads s⟩) hnew h.closed
  | @literal text hs hu ht hf =>
    have hline : a ∉ p.line := fun ha => hu ((h.underway_iff a).mpr ha)
    constructor
    case underway_iff =>
      intro b
      rw [mem_underway_settle, line_settle, h.underway_iff]
      exact and_iff_right_of_imp fun hb hab => hline (hab ▸ hb)
    case nodup => exact h.nodup
    case unsettled =>
      intro b hb hb'
      rcases mem_settled_settle.mp hb' with rfl | hb'
      · exact hline hb
      · exact h.unsettled b hb hb'
    case program => exact h.program
    case unread => exact h.unread
    case linked => exact h.linked
    case next_read => simp
    case stored =>
      intro b hb
      rcases mem_settled_settle.mp hb with rfl | hb
      · simp [ht]
      · exact h.stored b hb
    case marked =>
      exact fun b hb => (h.marked b hb).imp_left fun hb => mem_settled_settle.mpr (Or.inr hb)
    case closed => exact h.closed.literal (Store.program?_literal ht hf)

theorem finish {f : Frame} {rest : List Frame} (hw : p.waiting = f :: rest) (hu : f.unread = [])
    (h : Sound s [] p) : Sound s [] (settle { p with waiting := rest } f.address text) := by
  have hline : p.line = f.address :: line { p with waiting := rest } := by simp [line, hw]
  have hnodup := h.nodup
  rw [hline, List.nodup_cons] at hnodup
  have hrest : ∀ g ∈ rest, g ∈ p.waiting := fun g hg => by simp [hw, hg]
  constructor
  case underway_iff =>
    intro b
    rw [mem_underway_settle, line_settle, h.underway_iff, hline, List.mem_cons]
    constructor
    · rintro ⟨hne, rfl | hb⟩
      · exact absurd rfl hne
      · exact hb
    · exact fun hb => ⟨fun he => hnodup.1 (he ▸ hb), Or.inr hb⟩
  case nodup => exact hnodup.2
  case unsettled =>
    intro b hb hb'
    rcases mem_settled_settle.mp hb' with rfl | hb'
    · exact hnodup.1 hb
    · exact h.unsettled b (by rw [hline]; exact List.mem_cons_of_mem _ hb) hb'
  case program => exact fun g hg => h.program g (hrest g hg)
  case unread => exact fun g hg => h.unread g (hrest g hg)
  case linked =>
    have hlinked := h.linked
    rw [hline] at hlinked
    exact hlinked.tail
  case next_read => simp
  case stored =>
    intro b hb
    rcases mem_settled_settle.mp hb with rfl | hb
    · exact Store.isSome_of_program? (h.program f (by simp [hw]))
    · exact h.stored b hb
  case marked =>
    intro b hb
    rw [mem_settled_settle, line_settle]
    rcases h.marked b hb with hb | hb
    · exact Or.inl (Or.inr hb)
    · rw [hline] at hb
      exact (List.mem_cons.mp hb).imp (fun hb => Or.inl hb.symm) id
  case closed =>
    have hclosed := h.closed
    rw [hw, hline] at hclosed
    exact hclosed.finish hu

theorem invariant : Invariant s fun next _ p => Sound s next p where
  visit := visit
  take := take
  enter := enter
  finish hw hu _ := finish hw hu

end Sound

end Spreadsheet.Pass
