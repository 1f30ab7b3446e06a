import Spreadsheet.Proofs.Formula.References
import Spreadsheet.Proofs.Sheet.A1

/-! # The names in a program

The letters and digits that a source is cut into are runs that are not empty
(`Token.isRun_of_mem_ofSource`). Names of functions are put together from them, and compiling adds
no name of its own: so the name of every call of a program is made of letters and digits, and is
not empty (`Program.isName_of_call`). -/

namespace Spreadsheet

/-! ### Tokens -/

namespace Token

variable {cs : List Char}

/-- The letters and the digits of a token are as formulas can write them. -/
def IsRun : Token → Prop
  | name letters => (name letters).Writable
  | column letters => (column letters).Writable
  | row digits => (row digits).Writable
  | _ => True

theorem isRun_sign (c : Char) (rest : List Char) : (sign c rest).1.IsRun := by
  unfold sign
  split
  case h_7 | h_8 => split <;> trivial
  all_goals trivial

theorem takeWhile_ne_nil {p : Char → Bool} (h : cs.head?.any p = true) : cs.takeWhile p ≠ [] := by
  cases cs with
  | nil => cases h
  | cons c cs =>
    have hc : p c = true := h
    rw [List.takeWhile_cons_of_pos hc]
    exact List.cons_ne_nil _ _

/-- A run of characters, as long as it can be. -/
theorem takeWhile_run {p : Char → Bool} (h : cs.head?.any p = true) :
    (String.ofList (cs.takeWhile p)).toList ≠ [] ∧
      ∀ c ∈ (String.ofList (cs.takeWhile p)).toList, p c = true := by
  rw [String.toList_ofList]
  exact ⟨takeWhile_ne_nil h, List.all_eq_true.mp List.all_takeWhile⟩

theorem isRun_word (h : cs.head?.any Column.isLetter = true) :
    ∀ t ∈ (word cs).1, t.IsRun := by
  unfold word
  dsimp only
  split
  · next hdigits =>
    intro t ht
    simp only [List.mem_cons, List.not_mem_nil, or_false] at ht
    rcases ht with rfl | rfl
    · exact takeWhile_run h
    · exact takeWhile_run hdigits
  · intro t ht
    obtain rfl := List.mem_singleton.mp ht
    exact takeWhile_run h

theorem isRun_lexeme (c : Char) (rest : List Char) : ∀ t ∈ (lexeme c rest).1, t.IsRun := by
  unfold lexeme
  split
  · intro t ht
    obtain rfl := List.mem_singleton.mp ht
    trivial
  split
  · intro t ht
    obtain rfl := List.mem_singleton.mp ht
    trivial
  split
  · next hletter => exact isRun_word hletter
  · intro t ht
    obtain rfl := List.mem_singleton.mp ht
    exact isRun_sign c rest

theorem isRun_of_mem_ofText (cs : List Char) : ∀ t ∈ ofText cs, t.IsRun := by
  induction h : cs.length using Nat.strongRecOn generalizing cs with
  | ind n ih =>
    subst h
    cases cs with
    | nil => simp
    | cons c rest =>
      have hshorter : (next c rest).2.length < (c :: rest).length :=
        Nat.lt_succ_of_le (next_length c rest)
      intro t ht
      rw [ofText_next, List.mem_append] at ht
      rcases ht with ht | ht
      · unfold next at ht
        split at ht
        · cases ht
        · exact isRun_lexeme c rest t ht
      · exact ih _ hshorter _ rfl t ht

/-- **The letters and digits of a source are runs of letters and of digits.** -/
theorem isRun_of_mem_ofSource (source : String) : ∀ t ∈ ofSource source, t.IsRun :=
  isRun_of_mem_ofText _

end Token

/-! ### Items -/

/-- A name is made of letters and digits, and is not empty. -/
def IsName (name : String) : Prop := name.toList ≠ [] ∧ Address.IsAlphanumeric name.toList

variable {l : Limits} {is : List Item} {ts : List Token} {name : String} {count : Nat}

theorem Item.Spells.isName (h : Spells l (.call name) ts) (hts : ∀ t ∈ ts, t.IsRun) :
    IsName name := by
  cases h with
  | call n =>
    obtain ⟨hne, hl⟩ : (Token.name name).Writable := hts _ List.mem_cons_self
    exact ⟨hne, fun c hc => Or.inl (hl c hc)⟩
  | callColumn c =>
    obtain ⟨hne, hl⟩ : (Token.column name).Writable := hts _ List.mem_cons_self
    exact ⟨hne, fun c hc => Or.inl (hl c hc)⟩
  | callDigits c r =>
    obtain ⟨hne, hl⟩ : (Token.column c).Writable := hts _ List.mem_cons_self
    obtain ⟨-, hd⟩ : (Token.row r).Writable := hts _ (List.mem_cons_of_mem _ List.mem_cons_self)
    unfold IsName
    rw [String.toList_append]
    exact ⟨List.append_ne_nil_of_left_ne_nil hne _, Address.isAlphanumeric_append hl hd⟩

theorem Item.Reads.isName (h : Reads l is ts) (hts : ∀ t ∈ ts, t.IsRun) (hn : .call name ∈ is) :
    IsName name := by
  induction h with
  | nil => cases hn
  | item hi _ _ ih =>
    rcases List.mem_cons.mp hn with rfl | hn
    · exact hi.isName fun t ht => hts t (List.mem_append_left _ ht)
    · exact ih (fun t ht => hts t (List.mem_append_right _ ht)) hn
  | failure _ _ ih =>
    exact ih (fun t ht => hts t (List.mem_append_right _ ht))
      ((List.mem_cons.mp hn).resolve_left (by simp))

/-! ### Programs -/

/-- A call is added where its parenthesis is closed. -/
theorem Item.mem_of_call_mem_places {i : Item} {ps : List Pending} {s : Slot}
    (h : .call name count ∈ i.places s ps) : ∃ k, .call name k ∈ ps := by
  cases i with
  | operand o => simp [places] at h
  | failure m => simp [places] at h
  | operator o => cases h
  | leftParen => cases h
  | call n => cases h
  | comma =>
    dsimp only [places] at h
    split at h
    · cases h
    · simp at h
  | rightParen =>
    dsimp only [places] at h
    split at h
    · cases h
    · next n k rest =>
      simp only [List.mem_singleton, Instruction.call.injEq] at h
      exact ⟨k, by rw [h.1]; exact List.mem_cons_self⟩
    · simp at h

/-- Only the opening of a call opens it. -/
theorem Item.mem_of_call_mem_nest {i : Item} {ps : List Pending} {k : Nat}
    (h : .call name k ∈ i.nest ps) : (∃ k, .call name k ∈ ps) ∨ i = .call name := by
  cases i with
  | operand o => exact Or.inl ⟨k, h⟩
  | failure m => exact Or.inl ⟨k, h⟩
  | operator o => exact Or.inl ⟨k, h⟩
  | leftParen => exact Or.inl ⟨k, (List.mem_cons.mp h).resolve_left (by simp)⟩
  | rightParen => exact Or.inl ⟨k, List.mem_of_mem_tail h⟩
  | call n =>
    rcases List.mem_cons.mp h with h | h
    · cases h
      exact Or.inr rfl
    · exact Or.inl ⟨k, h⟩
  | comma =>
    dsimp only [nest] at h
    split at h
    · next n j rest =>
      rcases List.mem_cons.mp h with h | h
      · cases h
        exact Or.inl ⟨j, List.mem_cons_self⟩
      · exact Or.inl ⟨k, List.mem_cons_of_mem _ h⟩
    · exact Or.inl ⟨k, h⟩

theorem Item.mem_of_call_mem_sequence {ps : List Pending} {s : Slot}
    (h : .call name count ∈ sequence ps s is) : (∃ k, .call name k ∈ ps) ∨ .call name ∈ is := by
  induction is generalizing ps s with
  | nil => simp [sequence] at h
  | cons i is ih =>
    rcases List.mem_append.mp h with h | h
    · exact Or.inl (mem_of_call_mem_places h)
    · rcases ih h with ⟨k, hk⟩ | hmem
      · rcases mem_of_call_mem_nest hk with hk | rfl
        · exact Or.inl hk
        · exact Or.inr List.mem_cons_self
      · exact Or.inr (List.mem_cons_of_mem i hmem)

namespace Program

/-- Compiling adds no name of its own. -/
theorem mem_of_call_mem (h : .call name count ∈ ofTokens l ts) :
    .call name ∈ Item.ofTokens l ts :=
  (Item.mem_of_call_mem_sequence (mem_sequence rfl h)).resolve_left (by simp)

/-- **The name of every call is made of letters and digits.** -/
theorem isName_of_call {source : String} (h : .call name count ∈ ofSource l source) :
    IsName name :=
  (Item.reads_iff.mpr rfl).isName (Token.isRun_of_mem_ofSource source) (mem_of_call_mem h)

end Program

end Spreadsheet
