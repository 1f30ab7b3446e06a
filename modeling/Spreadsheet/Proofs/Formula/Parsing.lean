import Spreadsheet.Proofs.Formula.Infix
import Spreadsheet.Proofs.Formula.Scanning

/-! # Compiling expressions

A formula that writes an expression is compiled to the program of the expression:
`Expression.Infix.ofTokens_eq`. Compiling the items of an expression adds its program to what is
there, except that operators of the expression may still wait: `Compilation.Adds` says that whatever
lets them apply leaves the same as if the whole program had been added. -/

namespace Spreadsheet

namespace Compilation

variable {c c' : Compilation} {n m : Nat} {o : Operator} {p q : Program} {bound : Nat → Bool}

/-! ### Operators that wait -/

/-- Whether an operator that waits and binds as strongly as `n` applies before the operator `o`. -/
def frees (o : Operator) (n : Nat) : Bool :=
  o.precedence < n || (n == o.precedence && !o.groupsRight)

theorem between_eq (c : Compilation) (o : Operator) :
    c.between o = (c.release (frees o)).await (.operator o) := rfl

theorem frees_of_left_le (h : o.left ≤ n) : frees o n = true := by
  unfold Operator.left at h
  unfold frees
  split at h
  · simp only [Bool.or_eq_true, decide_eq_true_eq]
    omega
  · next hr =>
    simp only [hr, Bool.not_false, Bool.and_true, Bool.or_eq_true, decide_eq_true_eq, beq_iff_eq]
    omega

/-- Only the power groups from right to left, and no other operator binds as strongly. -/
theorem groupsRight_of_precedence_eq {o q : Operator} (ho : o.groupsRight = true)
    (h : q.precedence = o.precedence) : q.groupsRight = true := by
  have key : ∀ o ∈ Operator.all, ∀ q ∈ Operator.all, o.groupsRight = true →
      q.precedence = o.precedence → q.groupsRight = true := by decide
  exact key o (Operator.mem_all o) q (Operator.mem_all q) ho h

theorem frees_of_right_le {q : Operator} (h : o.right ≤ q.precedence) :
    frees q o.precedence = false := by
  unfold Operator.right at h
  unfold frees
  simp only [Bool.or_eq_false_iff, decide_eq_false_iff_not, Bool.and_eq_false_imp, beq_iff_eq,
    Bool.not_eq_false']
  split at h
  · next hr => exact ⟨by omega, fun he => groupsRight_of_precedence_eq hr he.symm⟩
  · exact ⟨by omega, fun he => by omega⟩

theorem left_ge (o : Operator) : o.precedence ≤ o.left := by
  unfold Operator.left
  split <;> omega

theorem right_ge (o : Operator) : o.precedence ≤ o.right := by
  unfold Operator.right
  split <;> omega

theorem precedence_lt_negation (o : Operator) : o.precedence < Operator.negation := by
  have key : ∀ o ∈ Operator.all, o.precedence < Operator.negation := by decide
  exact key o (Operator.mem_all o)

/-- What waits last is not freed by an operator that binds at least as strongly as `n`. -/
def Admits (c : Compilation) (n : Nat) : Prop :=
  ∀ p ∈ c.pending.head?, ∀ k ∈ p.precedence?, ∀ o : Operator, n ≤ o.precedence → frees o k = false

theorem Admits.mono (h : c.Admits n) (hnm : n ≤ m) : c.Admits m :=
  fun p hp k hk o ho => h p hp k hk o (Nat.le_trans hnm ho)

theorem release_eq_self (h : ∀ p ∈ c.pending.head?, ∀ k ∈ p.precedence?, bound k = false) :
    c.release bound = c := by
  obtain ⟨program, pending, wanting, opened⟩ := c
  cases pending with
  | nil => rfl
  | cons p rest =>
    have hp : p.precedence?.any bound = false := by
      cases hk : p.precedence? with
      | none => rfl
      | some k => exact h p rfl k hk
    simp [release, settle, hp]

theorem release_cons {p : Pending} {rest : List Pending} {k : Nat} (hp : c.pending = p :: rest)
    (hk : p.precedence? = some k) (hb : bound k = true) :
    c.release bound =
      release { c with program := c.program.push p.instruction, pending := rest } bound := by
  simp [release, hp, settle, hk, hb]

theorem Admits.release_frees (h : c.Admits n) (hn : n ≤ o.precedence) :
    c.release (frees o) = c :=
  release_eq_self fun p hp k hk => h p hp k hk o hn

theorem settle_append (bound : Nat → Bool) (program : Array Instruction) (ps : List Pending) :
    (settle bound program ps).1.toList ++ (settle bound program ps).2.map Pending.instruction =
      program.toList ++ ps.map Pending.instruction := by
  induction ps generalizing program with
  | nil => rfl
  | cons p rest ih =>
    unfold settle
    split
    · rw [ih, Array.toList_push, List.append_assoc]
      rfl
    · rfl

/-- Letting operators apply before the end changes nothing at the end. -/
theorem finish_release (c : Compilation) (bound : Nat → Bool) :
    (c.release bound).finish = c.finish := settle_append bound c.program c.pending

/-! ### What an expression adds -/

/-- More instructions behind those there are; no operand is to follow. -/
def add (c : Compilation) (p : Program) : Compilation :=
  { c with program := c.program ++ p.toArray, wanting := false, opened := false }

/-- `c'` is `c` with the program added, but for operators that bind at least as strongly as `n` and
may still wait. -/
structure Adds (c : Compilation) (n : Nat) (p : Program) (c' : Compilation) : Prop where
  wanting : c'.wanting = false
  opened : c'.opened = false
  release : ∀ bound : Nat → Bool, (∀ m, n ≤ m → bound m = true) →
    c'.release bound = (c.add p).release bound

theorem Adds.of_eq (h : c' = c.add p) : c.Adds n p c' := by
  subst h
  exact ⟨rfl, rfl, fun _ _ => rfl⟩

section

variable {d : Compilation} {name : String} {k : Nat} {rest : List Pending}

theorem step_operator (hw : c.wanting = false) (ho : c.opened = false) :
    c.step (.operator o) = c.between o := by
  obtain ⟨program, pending, wanting, opened⟩ := c
  subst hw ho
  simp [step]

theorem step_comma (ho : c.opened = false) (h : c.releaseAll = d)
    (hd : d.pending = .call name k :: rest) :
    c.step .comma = { d with pending := .call name (k + 1) :: rest, wanting := true } := by
  obtain ⟨program, pending, wanting, opened⟩ := c
  subst ho
  simp only [step, separate, h, hd]

theorem step_rightParen_paren (ho : c.opened = false) (h : c.releaseAll = d)
    (hd : d.pending = .paren :: rest) :
    c.step .rightParen = { d with pending := rest, wanting := false } := by
  obtain ⟨program, pending, wanting, opened⟩ := c
  subst ho
  simp only [step, close, h, hd]

theorem step_rightParen_call (ho : c.opened = false) (h : c.releaseAll = d)
    (hd : d.pending = .call name k :: rest) :
    c.step .rightParen = { d with pending := rest }.emit (.call name (k + 1)) := by
  obtain ⟨program, pending, wanting, opened⟩ := c
  subst ho
  simp [step, close, h, hd]

end

/-- An operator after its left operand lets the operators of that operand apply and no others. -/
theorem Adds.step_operator (h : c.Adds o.left p c') (hc : c.Admits n) (hn : n ≤ o.precedence) :
    c'.step (.operator o) = (c.add p).await (.operator o) := by
  have hadd : (c.add p).Admits n := hc
  rw [Compilation.step_operator h.wanting h.opened, between_eq,
    h.release _ fun m hm => frees_of_left_le hm, hadd.release_frees hn]

/-- The right operand of an operator completes what the operator adds. -/
theorem Adds.binary (hn : n ≤ o.precedence)
    (h : Adds ((c.add p).await (.operator o)) o.right q c') :
    c.Adds n (p ++ (q ++ [.operator o])) c' where
  wanting := h.wanting
  opened := h.opened
  release bound hb := by
    have hright : ∀ m, o.right ≤ m → bound m = true :=
      fun m hm => hb m (Nat.le_trans hn (Nat.le_trans (right_ge o) hm))
    rw [h.release bound hright, release_cons rfl rfl (hb _ hn)]
    simp [add, await, Pending.instruction]

/-- The operand of a negation completes what the negation adds. -/
theorem Adds.negate (hn : n ≤ Operator.negation)
    (h : Adds { c with pending := .negate :: c.pending, opened := false } Operator.negation p c') :
    c.Adds n (p ++ [.negate]) c' where
  wanting := h.wanting
  opened := h.opened
  release bound hb := by
    have hnegation : ∀ m, Operator.negation ≤ m → bound m = true :=
      fun m hm => hb m (Nat.le_trans hn hm)
    rw [h.release bound hnegation, release_cons rfl rfl (hb _ hn)]
    simp [add, Pending.instruction]

theorem Adds.plus (hn : n ≤ Operator.negation)
    (h : Adds { c with opened := false } Operator.negation p c') : c.Adds n p c' where
  wanting := h.wanting
  opened := h.opened
  release bound hb := h.release bound fun m hm => hb m (Nat.le_trans hn hm)

/-- Inside a parenthesis that has just been opened, all operators apply at its end. -/
theorem Adds.releaseAll (h : c.Adds 0 p c') (hp : ∀ q ∈ c.pending.head?, q.precedence? = none) :
    c'.releaseAll = c.add p := by
  refine (h.release _ fun m _ => Eq.refl _).trans (release_eq_self fun q hq k hk => ?_)
  rw [hp q hq] at hk
  cases hk

theorem admits_zero (hp : ∀ q ∈ c.pending.head?, q.precedence? = none) : c.Admits 0 := by
  intro q hq k hk
  rw [hp q hq] at hk
  cases hk

end Compilation

namespace Expression

open Compilation

/-- What the items of the arguments of a call add, if this is known of each argument. -/
theorem releaseAll_arguments (name : String) (rest : List Pending) :
    ∀ (args : List (Expression × List Item)), args ≠ [] →
      (∀ arg ∈ args, ∀ c : Compilation, c.wanting = true → c.Admits 0 →
        c.Adds 0 arg.1.postorder (arg.2.foldl step c)) →
      ∀ (c : Compilation) (k : Nat), c.wanting = true → c.pending = .call name k :: rest →
        ((List.intercalate [.comma] (args.map Prod.snd)).foldl step c).opened = false ∧
        ((List.intercalate [.comma] (args.map Prod.snd)).foldl step c).releaseAll =
          { c.add (postorderAll (args.map Prod.fst)) with
            pending := .call name (k + (args.length - 1)) :: rest }
  | [], hne, _, _, _, _, _ => absurd rfl hne
  | [arg], _, h, c, k, hw, hp => by
    have hhead : ∀ q ∈ c.pending.head?, q.precedence? = none := by simp [hp, Pending.precedence?]
    have hadds := h arg List.mem_cons_self c hw (admits_zero hhead)
    simp only [List.map_cons, List.map_nil, List.intercalate_singleton]
    refine ⟨hadds.opened, ?_⟩
    rw [hadds.releaseAll hhead]
    simp [postorderAll, add, hp]
  | arg :: arg' :: args, _, h, c, k, hw, hp => by
    have hhead : ∀ q ∈ c.pending.head?, q.precedence? = none := by simp [hp, Pending.precedence?]
    have hadds := h arg List.mem_cons_self c hw (admits_zero hhead)
    have hcomma : (arg.2.foldl step c).step .comma =
        { c.add arg.1.postorder with pending := .call name (k + 1) :: rest, wanting := true } :=
      step_comma hadds.opened (hadds.releaseAll hhead) hp
    have hrest := releaseAll_arguments name rest (arg' :: args) (List.cons_ne_nil _ _)
      (fun a ha => h a (List.mem_cons_of_mem arg ha))
      { c.add arg.1.postorder with pending := .call name (k + 1) :: rest, wanting := true } (k + 1)
      rfl rfl
    simp only [List.map_cons, List.intercalate_cons_cons, List.foldl_append, List.foldl_cons,
      List.foldl_nil, hcomma] at hrest ⊢
    refine ⟨hrest.1, hrest.2.trans ?_⟩
    simp [postorderAll, add]
    omega

/-- **The items of an expression add its program.** -/
theorem Infix.adds {n : Nat} {e : Expression} {is : List Item} (h : e.Infix n is) :
    ∀ c : Compilation, c.wanting = true → c.Admits n → c.Adds n e.postorder (is.foldl step c) := by
  induction h with
  | operand n o =>
    intro c _ _
    have hstep : c.step (.operand o) = c.add [.push o] := by simp [step, emit, add]
    simp only [List.foldl_cons, List.foldl_nil, hstep, postorder]
    exact Adds.of_eq rfl
  | negate hn _ ih =>
    intro c hw _
    have hstep : c.step (.operator .subtract) =
        { c with pending := .negate :: c.pending, opened := false } := by simp [step, hw]
    rw [List.foldl_cons, hstep, postorder]
    refine Adds.negate hn (ih _ hw fun p hp k hk o ho => ?_)
    exact absurd (precedence_lt_negation o) (Nat.not_lt.mpr ho)
  | plus hn _ ih =>
    intro c hw _
    have hstep : c.step (.operator .add) = { c with opened := false } := by simp [step, hw]
    rw [List.foldl_cons, hstep, postorder]
    refine Adds.plus hn (ih _ hw fun p hp k hk o ho => ?_)
    exact absurd (precedence_lt_negation o) (Nat.not_lt.mpr ho)
  | @binary n o a b is js hn _ _ iha ihb =>
    intro c hw hc
    have hleft := iha c hw (hc.mono (Nat.le_trans hn (left_ge o)))
    rw [List.foldl_append, List.foldl_cons, hleft.step_operator hc hn, postorder]
    refine Adds.binary hn (ihb _ rfl ?_)
    rintro p ⟨⟩ k ⟨⟩ q hq
    exact frees_of_right_le hq
  | @paren n e is _ ih =>
    intro c hw _
    have hopen : c.step .leftParen = { c with opened := false }.await .paren := rfl
    have hinner : Adds _ 0 e.postorder (is.foldl step ({ c with opened := false }.await .paren)) :=
      ih _ rfl (admits_zero (by rintro q ⟨⟩; rfl))
    rw [List.foldl_cons, hopen, List.foldl_append, List.foldl_cons, List.foldl_nil,
      step_rightParen_paren hinner.opened (hinner.releaseAll (by rintro q ⟨⟩; rfl)) rfl]
    exact Adds.of_eq rfl
  | call name args _ ih =>
    intro c hw _
    have hopen : c.step (.call name) = { c.await (.call name 0) with opened := true } := rfl
    rw [List.foldl_cons, hopen, List.foldl_append, List.foldl_cons, List.foldl_nil, postorder]
    by_cases hargs : args = []
    · subst hargs
      have hclose : step { c.await (.call name 0) with opened := true } .rightParen =
          c.add [.call name 0] := by
        simp [step, close, await, releaseAll, release, settle, Pending.precedence?, emit, add]
      rw [List.map_nil, List.map_nil, List.intercalate_nil, List.foldl_nil, hclose]
      exact Adds.of_eq rfl
    · have hinner := releaseAll_arguments name c.pending args hargs ih
        { c.await (.call name 0) with opened := true } 0 rfl rfl
      have hlength : args.length - 1 + 1 = args.length := by
        have := List.length_pos_iff.mpr hargs
        omega
      rw [step_rightParen_call hinner.1 hinner.2 rfl]
      have hadd : emit { add { c.await (.call name 0) with opened := true }
            (postorderAll (args.map Prod.fst)) with pending := c.pending }
            (.call name (0 + (args.length - 1) + 1)) =
          c.add (postorderAll (args.map Prod.fst) ++ [.call name (args.map Prod.fst).length]) := by
        simp [emit, add, await, hlength]
      refine Adds.of_eq (Eq.trans ?_ hadd)
      rfl

/-- **A formula that writes an expression is compiled to the program of the expression.** -/
theorem Infix.ofTokens_eq_postorder {limits : Limits} {e : Expression} {is : List Item}
    {ts : List Token} (h : e.Infix 0 is) (hts : Item.Spelled limits is ts) :
    Program.ofTokens limits ts = e.postorder := by
  have hadds := h.adds {} rfl (admits_zero (by rintro q ⟨⟩))
  have hrelease : (is.foldl step {}).releaseAll = Compilation.add {} e.postorder :=
    hadds.releaseAll (by rintro q ⟨⟩)
  rw [Program.ofTokens, hts.ofTokens_eq h.wellFormed.inPlace, Program.ofItems,
    ← finish_release _ fun _ => true]
  show Compilation.finish (releaseAll _) = _
  rw [hrelease]
  simp [finish, add]

/-- `-2^LOG10(A1)^3-SUM(B2:A1,(4-5)-6)*PI()`. -/
def mixed : Expression :=
  .binary .subtract
    (.binary (.arithmetic .power) (.negate (.operand (.number 2)))
      (.binary (.arithmetic .power) (.call "LOG10" [.operand (.ref ⟨0, 0⟩)])
        (.operand (.number 3))))
    (.binary (.arithmetic .multiply)
      (.call "SUM" [.operand (.range (.spanning ⟨1, 1⟩ ⟨0, 0⟩)),
        .binary .subtract (.binary .subtract (.operand (.number 4)) (.operand (.number 5)))
          (.operand (.number 6))])
      (.call "PI" []))

def mixedItems : List Item :=
  [.operator .subtract, .operand (.number 2), .operator (.arithmetic .power), .call "LOG10",
    .operand (.ref ⟨0, 0⟩), .rightParen, .operator (.arithmetic .power), .operand (.number 3),
    .operator .subtract, .call "SUM", .operand (.range (.spanning ⟨1, 1⟩ ⟨0, 0⟩)), .comma,
    .leftParen, .operand (.number 4), .operator .subtract, .operand (.number 5), .rightParen,
    .operator .subtract, .operand (.number 6), .rightParen, .operator (.arithmetic .multiply),
    .call "PI", .rightParen]

theorem mixed_written : mixed.Infix 0 mixedItems := by
  have hlog : Infix 5 (.call "LOG10" [.operand (.ref ⟨0, 0⟩)])
      [.call "LOG10", .operand (.ref ⟨0, 0⟩), .rightParen] :=
    .call "LOG10" [(.operand (.ref ⟨0, 0⟩), [.operand (.ref ⟨0, 0⟩)])] (by
      intro arg harg
      obtain rfl := List.mem_singleton.mp harg
      exact .operand 0 _)
  have hpower := Infix.binary (n := 2) (o := .arithmetic .power) (by decide)
    (.negate (by decide) (.operand _ (.number 2)))
    (.binary (o := .arithmetic .power) (by decide) hlog (.operand _ (.number 3)))
  have hdifference := Infix.binary (n := 0) (o := .subtract) (by decide)
    (.paren (.binary (o := .subtract) (by decide) (.operand _ (.number 4))
      (.operand _ (.number 5))))
    (.operand _ (.number 6))
  have hsum := Infix.call (n := 3) "SUM"
    [(_, [.operand (.range (.spanning ⟨1, 1⟩ ⟨0, 0⟩))]), (_, _)] (by
      intro arg harg
      rcases List.mem_cons.mp harg with rfl | harg
      · exact .operand 0 _
      · obtain rfl := List.mem_singleton.mp harg
        exact hdifference)
  have hproduct := Infix.binary (n := 3) (o := .arithmetic .multiply) (by decide) hsum
    (.call "PI" [] (by simp))
  exact .binary (o := .subtract) (by decide) hpower hproduct

/-- Negation binds tighter than the power, which groups from right to left, as differences do from
left to right; `LOG10` is a name although it looks like a reference. -/
theorem mixed_ofTokens : ∃ is ts, mixed.Infix 0 is ∧ Item.Spelled {} is ts ∧
    ts = Token.ofSource "=-2^LOG10(A1)^3-SUM(B2:A1,(4-5)-6)*PI()" ∧
    (Program.ofTokens {} ts).written =
      "2 NEG A1 LOG10/1 3 ^ ^ A1:B2 4 5 - 6 - SUM/2 PI/0 * -" := by
  have hitems : Item.ofTokens {} (Token.ofSource "=-2^LOG10(A1)^3-SUM(B2:A1,(4-5)-6)*PI()") =
      mixedItems := by decide +kernel
  have hspelled : Item.Spelled {} mixedItems
      (Token.ofSource "=-2^LOG10(A1)^3-SUM(B2:A1,(4-5)-6)*PI()") := by
    rw [← hitems]
    refine Item.spelled_ofTokens fun m hm => ?_
    rw [hitems] at hm
    simp [mixedItems] at hm
  refine ⟨_, _, mixed_written, hspelled, rfl, ?_⟩
  rw [mixed_written.ofTokens_eq_postorder hspelled]
  decide +kernel

end Expression

end Spreadsheet
