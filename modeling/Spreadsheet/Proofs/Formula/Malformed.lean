import Spreadsheet.Proofs.Formula.Infix
import Spreadsheet.Proofs.Formula.Nesting
import Spreadsheet.Proofs.Formula.Scanning
import Spreadsheet.Proofs.Text.Joining

/-! # Malformed formulas

Compiling reports parentheses that do not match, commas outside calls and tokens that have no
meaning, but it does not ask whether items stand next to each other that cannot. A formula with a
value is therefore well-formed exactly if all its items are in place:
`Token.wellFormed_iff_inPlace`.

`Item.Unfinished` says what has been read when a formula breaks off: inside every open parenthesis
an expression, or the beginning of one. -/

namespace Spreadsheet

namespace Item

/-- What stands between the innermost open parenthesis, or the last comma in it, and a place. -/
def Segment : Slot → List Item → Prop
  | .operand, is => ∀ js, WellFormed js → WellFormed (is ++ js)
  | .arguments, is => is = []
  | .operator, is => WellFormed is

/-- The items read so far, given the open parentheses and the place behind the items. -/
inductive Unfinished : List Pending → Slot → List Item → Prop
  | nil {s : Slot} {is : List Item} (hs : s ≠ .arguments) (h : Segment s is) : Unfinished [] s is
  | paren {ps : List Pending} {s : Slot} {is js : List Item} (ho : Unfinished ps .operand is)
    (hs : s ≠ .arguments) (h : Segment s js) : Unfinished (.paren :: ps) s (is ++ .leftParen :: js)
  | call {ps : List Pending} {s : Slot} {is js : List Item} (name : String)
    (args : List (List Item)) (ho : Unfinished ps .operand is)
    (hargs : ∀ arg ∈ args, WellFormed arg)
    (hs : s = .arguments → args = []) (h : Segment s js) :
    Unfinished (.call name args.length :: ps) s
      (is ++ .call name :: (args.flatMap (· ++ [.comma]) ++ js))

namespace Unfinished

variable {ps qs : List Pending} {s : Slot} {is js : List Item} {i : Item}

/-- Where a call has just been opened, an operand can follow. -/
theorem operand (h : Unfinished ps s is) (hs : s ≠ .operator) : Unfinished ps .operand is := by
  cases s with
  | operand => exact h
  | operator => exact absurd rfl hs
  | arguments =>
    cases h with
    | nil hs => exact absurd rfl hs
    | paren _ hs => exact absurd rfl hs
    | call name args ho hargs _ hnil =>
      obtain rfl : _ = [] := hnil
      exact .call name args ho hargs (by simp) fun js hjs => hjs

/-- Items that complete the latest segment complete the whole. -/
theorem extend {t : Slot} (h : Unfinished ps s is) (ht : t ≠ .arguments)
    (hjs : ∀ ks, Segment s ks → Segment t (ks ++ js)) : Unfinished ps t (is ++ js) := by
  cases h with
  | nil _ h => exact .nil ht (hjs _ h)
  | paren ho _ h =>
    rw [List.append_assoc]
    exact .paren ho ht (hjs _ h)
  | call name args ho hargs _ h =>
    rw [List.append_assoc, List.cons_append, List.append_assoc]
    exact .call name args ho hargs (fun he => absurd he ht) (hjs _ h)

/-- **One more item in its place.** -/
theorem step (h : Unfinished ps s is) (hfits : i.fits s = true)
    (hn : Compilation.Nests i ps qs) : Unfinished qs i.behind (is ++ [i]) := by
  cases hn with
  | operand o =>
    have hs : s ≠ .operator := by simpa [fits] using hfits
    exact (h.operand hs).extend (by simp [behind]) fun ks hks => hks _ (.operand o)
  | operator o =>
    by_cases hs : s = .operator
    · subst hs
      refine h.extend (by simp [behind]) fun ks hks js hjs => ?_
      rw [List.append_assoc]
      exact .binary o hks hjs
    · have ho : o = .add ∨ o = .subtract := by simpa [fits, hs] using hfits
      refine (h.operand hs).extend (by simp [behind]) fun ks hks js hjs => ?_
      rw [List.append_assoc]
      exact hks _ (.sign ho hjs)
  | leftParen =>
    have hs : s ≠ .operator := by simpa [fits] using hfits
    exact .paren (h.operand hs) (by simp [behind]) fun js hjs => hjs
  | call name =>
    have hs : s ≠ .operator := by simpa [fits] using hfits
    exact .call name [] (h.operand hs) (by simp) (fun _ => rfl) rfl
  | comma name k qs' =>
    obtain rfl : s = .operator := by simpa [fits] using hfits
    cases h with
    | @call _ _ is js name args ho hargs _ hjs =>
      have hargs' : ∀ arg ∈ args ++ [js], WellFormed arg := by
        intro arg harg
        rcases List.mem_append.mp harg with harg | harg
        · exact hargs arg harg
        · rw [List.mem_singleton.mp harg]
          exact hjs
      have hcall : Unfinished (.call name (args ++ [js]).length :: qs') .operand
          (is ++ .call name :: ((args ++ [js]).flatMap (· ++ [.comma]) ++ [])) :=
        .call name (args ++ [js]) ho hargs' (by simp) fun ks hks => hks
      simpa [behind] using hcall
  | closeParen =>
    have hs : s ≠ .operand := by simpa [fits] using hfits
    cases h with
    | @paren _ _ is js ho hs' hjs =>
      have : s = .operator := by cases s <;> simp_all
      subst this
      rw [List.append_assoc]
      exact ho.extend (by simp [behind]) fun ks hks => hks _ (.paren hjs)
  | closeCall name k =>
    have hs : s ≠ .operand := by simpa [fits] using hfits
    cases h with
    | @call _ _ is js name args ho hargs hs' hjs =>
      have hcall : WellFormed
          (.call name :: ((args.flatMap (· ++ [.comma]) ++ js) ++ [.rightParen])) := by
        cases s with
        | operand => exact absurd rfl hs
        | arguments =>
          obtain rfl : js = [] := hjs
          rw [hs' rfl]
          exact .call name [] (by simp)
        | operator =>
          rw [← List.intercalate_concat]
          refine .call name _ fun arg harg => ?_
          rcases List.mem_append.mp harg with harg | harg
          · exact hargs arg harg
          · rw [List.mem_singleton.mp harg]
            exact hjs
      rw [List.append_assoc]
      exact ho.extend (by simp [behind]) fun ks hks => hks _ hcall

end Unfinished

/-- All items in their places and no failure: what has been read is unfinished as the open
parentheses say. -/
theorem Unfinished.foldl {c : Compilation} {s : Slot} {read is : List Item}
    (h : Unfinished c.brackets s read) (hplace : inPlace s is = true)
    (hclean : (is.foldl Compilation.step c).Clean) :
    Unfinished (is.foldl Compilation.step c).brackets .operator (read ++ is) := by
  induction is generalizing c s read with
  | nil =>
    obtain rfl : s = .operator := by simpa [inPlace] using hplace
    rwa [List.append_nil]
  | cons i is ih =>
    rw [inPlace_cons, Bool.and_eq_true] at hplace
    rw [List.foldl_cons] at hclean
    have hnests := (Compilation.Clean.step (Compilation.Clean.of_foldl hclean)).2
    rw [List.append_cons]
    exact ih (h.step hplace.1 hnests) hplace.2 hclean

/-- **Items in their places that compile without a failure form an expression.** -/
theorem wellFormed_of_inPlace {is : List Item} (hplace : inPlace .operand is = true)
    (h : (Program.ofItems is).firstFailure? = none) : WellFormed is := by
  obtain ⟨hclean, hbrackets⟩ := Compilation.clean_of_finish h
  have hstart : Unfinished (Compilation.brackets {}) .operand [] :=
    .nil (by simp) fun js hjs => hjs
  have hend := hstart.foldl hplace hclean
  rw [hbrackets, List.nil_append] at hend
  cases hend with
  | nil _ h => exact h

end Item

/-- The tokens are those of an expression. -/
def Token.WellFormed (limits : Limits) (ts : List Token) : Prop :=
  ∃ is, Item.WellFormed is ∧ Item.Spelled limits is ts

theorem Token.wellFormed_iff_of_firstFailure? {limits : Limits} {ts : List Token}
    (h : (Program.ofTokens limits ts).firstFailure? = none) :
    Token.WellFormed limits ts ↔ Item.inPlace .operand (Item.ofTokens limits ts) = true := by
  constructor
  · rintro ⟨is, his, hspelled⟩
    rw [hspelled.ofTokens_eq his.inPlace]
    exact his.inPlace
  · intro hplace
    have hclean := (Compilation.clean_of_finish h).1
    exact ⟨_, Item.wellFormed_of_inPlace hplace h,
      Item.spelled_ofTokens (Compilation.Clean.failure_notMem hclean)⟩

section

variable {σ : Type} {src : Source (StateM σ)} {st st' : σ} {v : Value}

theorem Program.firstFailure?_of_evaluate {p : Program}
    (h : (p.evaluate src).run.run st = (.ok v, st')) : p.firstFailure? = none := by
  unfold evaluate at h
  split at h
  · cases h
  · assumption

/-- **A formula with a value is well-formed exactly if all its items are in place.** Malformed
formulas with a value are those in which two neighbours do not suit each other: an operand or an
opening parenthesis follows an operand, or an operator, a comma, a closing parenthesis or the end of
the formula follows a place where an operand is missing. -/
theorem Token.wellFormed_iff_inPlace {limits : Limits} {source : String}
    (h : ((Program.ofSource limits source).evaluate src).run.run st = (.ok v, st')) :
    Token.WellFormed limits (Token.ofSource source) ↔
      Item.inPlace .operand (Item.ofTokens limits (Token.ofSource source)) = true :=
  Token.wellFormed_iff_of_firstFailure? (Program.firstFailure?_of_evaluate h)

end

/-- `=1 2+` shows 3: an operator behind its operands makes up for the one missing between them. -/
theorem misplaced_evaluates : ∃ v,
    ((Program.ofSource {} "=1 2+").evaluate (m := StateM Unit)
      ⟨fun _ => pure .empty, fun _ => pure .empty⟩).run.run () = (.ok v, ()) ∧
    v.shown = "3" ∧ ¬ Token.WellFormed {} (Token.ofSource "=1 2+") := by
  have hvalue : ((((Program.ofSource {} "=1 2+").evaluate (m := StateM Unit)
      ⟨fun _ => pure .empty, fun _ => pure .empty⟩).run.run ()).1.toOption.map Value.shown) =
        some "3" := by decide +kernel
  rcases hrun : ((Program.ofSource {} "=1 2+").evaluate (m := StateM Unit)
      ⟨fun _ => pure .empty, fun _ => pure .empty⟩).run.run () with ⟨r, ⟨⟩⟩
  rw [hrun] at hvalue
  cases r with
  | error e => simp [Except.toOption] at hvalue
  | ok v =>
    refine ⟨v, rfl, by simpa [Except.toOption] using hvalue, ?_⟩
    rw [Token.wellFormed_iff_inPlace hrun]
    decide +kernel

end Spreadsheet
