import Spreadsheet.Proofs.Formula.Spelling

/-! # Reading all tokens

What is read from tokens that spell no formula. `Item.Fails` says which tokens make no sense in
front of others: a name that opens no call, a reference to no cell, a range that lacks a corner, and
a colon, digits or a character that have no meaning where they stand. `Item.Reads` puts the items
that are spelled and the failures together, from left to right. Every list of tokens has one such
reading, and it is what is found: `Item.reads_iff`. So items that are found without a failure are
spelled by the tokens: `Item.spelled_ofTokens`. -/

namespace Spreadsheet.Item

variable {limits : Limits} {m : Marker} {i : Item} {is : List Item} {ts us : List Token}

/-- The first tokens make no sense in front of the others, which the marker says. -/
inductive Fails (limits : Limits) : Marker → List Token → List Token → Prop
  | name {us : List Token} (n : String) (hparen : us.head? ≠ some .leftParen) :
    Fails limits .name [.name n] us
  | column {us : List Token} (c : String) (hrow : ∀ r, us.head? ≠ some (.row r))
    (hparen : us.head? ≠ some .leftParen) : Fails limits .name [.column c] us
  | ref {us : List Token} {c r : String} (h : ∀ a : Address, ¬ a.Named limits c r)
    (hparen : us.head? ≠ some .leftParen) (hjoins : ¬ Joins us) :
    Fails limits .ref [.column c, .row r] us
  | range {us : List Token} {c r d s : String}
    (h : ∀ a b : Address, a.Named limits c r → ¬ b.Named limits d s)
    (hparen : us.head? ≠ some .leftParen) :
    Fails limits .ref [.column c, .row r, .colon, .column d, .row s] us
  | row (r : String) (us : List Token) : Fails limits .error [.row r] us
  | colon (us : List Token) : Fails limits .error [.colon] us
  | unknown (c : Char) (us : List Token) : Fails limits .error [.unknown c] us

/-- **The items that are read from tokens**, whatever the tokens are. -/
inductive Reads (limits : Limits) : List Item → List Token → Prop
  | nil : Reads limits [] []
  | item {i : Item} {is : List Item} {ts us : List Token} (hi : Spells limits i ts)
    (hstops : i.Stops us) (h : Reads limits is us) : Reads limits (i :: is) (ts ++ us)
  | failure {m : Marker} {is : List Item} {ts us : List Token} (hm : Fails limits m ts us)
    (h : Reads limits is us) : Reads limits (.failure m :: is) (ts ++ us)

/-! ### What is read is found -/

theorem resolve?_eq_none {c r : String} :
    resolve? limits c r = none ↔ ∀ a : Address, ¬ a.Named limits c r := by
  rw [Option.eq_none_iff_forall_ne_some]
  exact forall_congr' fun a => not_congr resolve?_eq_some

theorem ofCorners_eq_failure {a b : Option Address} (h : ∀ x y, a = some x → b ≠ some y) :
    ofCorners a b = .failure .ref := by
  cases a with
  | none => rfl
  | some x =>
    cases b with
    | none => rfl
    | some y => exact absurd rfl (h x y rfl)

/-- Tokens that make no sense are read as a failure. -/
theorem Fails.next_eq (h : Fails limits m ts us) :
    ∃ t rest, ts ++ us = t :: rest ∧ next limits t rest = (.failure m, us) := by
  cases h with
  | name n hparen =>
    refine ⟨_, _, rfl, ?_⟩
    cases us with
    | nil => rfl
    | cons u us =>
      cases u with
      | leftParen => exact absurd rfl hparen
      | _ => rfl
  | column c hrow hparen =>
    refine ⟨_, _, rfl, ?_⟩
    cases us with
    | nil => rfl
    | cons u us =>
      cases u with
      | leftParen => exact absurd rfl hparen
      | row r => exact absurd rfl (hrow r)
      | _ => rfl
  | @ref _ c r h hparen hjoins =>
    refine ⟨.column c, .row r :: us, rfl, ?_⟩
    rw [next_reference hparen hjoins, resolve?_eq_none.mpr h]
    rfl
  | @range _ c r d s h hparen =>
    refine ⟨.column c, .row r :: .colon :: .column d :: .row s :: us, rfl, ?_⟩
    rw [next_range hparen, ofCorners_eq_failure]
    intro a b ha hb
    exact h a b (resolve?_eq_some.mp ha) (resolve?_eq_some.mp hb)
  | row r => exact ⟨_, _, rfl, rfl⟩
  | colon => exact ⟨_, _, rfl, rfl⟩
  | unknown c => exact ⟨_, _, rfl, rfl⟩

theorem Reads.ofTokens_eq (h : Reads limits is ts) : ofTokens limits ts = is := by
  induction h with
  | nil => exact ofTokens_nil limits
  | item hi hstops _ ih =>
    obtain ⟨t, rest, hts, hnext⟩ := hi.next_eq hstops
    rw [hts, ofTokens_cons, hnext, ih]
  | failure hm _ ih =>
    obtain ⟨t, rest, hts, hnext⟩ := hm.next_eq
    rw [hts, ofTokens_cons, hnext, ih]

/-! ### All tokens can be read -/

/-- A column and a row in front are the name of a function, a reference or a range. -/
theorem exists_first_reference (limits : Limits) (c r : String) (us : List Token) :
    ∃ ts vs, .column c :: .row r :: us = ts ++ vs ∧ ts ≠ [] ∧
      ((∃ i, Spells limits i ts ∧ i.Stops vs) ∨ ∃ m, Fails limits m ts vs) := by
  by_cases hparen : us.head? = some .leftParen
  · obtain ⟨vs, rfl⟩ := List.head?_eq_some_iff.mp hparen
    exact ⟨_, vs, rfl, by simp, Or.inl ⟨_, .callDigits c r, trivial⟩⟩
  by_cases hjoins : Joins us
  · obtain ⟨d, s, vs, rfl, hvs⟩ := hjoins
    refine ⟨[.column c, .row r, .colon, .column d, .row s], vs, rfl, by simp, ?_⟩
    by_cases hnamed : ∃ a b : Address, a.Named limits c r ∧ b.Named limits d s
    · obtain ⟨a, b, ha, hb⟩ := hnamed
      exact Or.inl ⟨_, .range ha hb, hvs⟩
    · exact Or.inr ⟨_, .range (fun a b ha hb => hnamed ⟨a, b, ha, hb⟩) hvs⟩
  · refine ⟨[.column c, .row r], us, rfl, by simp, ?_⟩
    by_cases hnamed : ∃ a : Address, a.Named limits c r
    · obtain ⟨a, ha⟩ := hnamed
      exact Or.inl ⟨_, .ref ha, hparen, hjoins⟩
    · exact Or.inr ⟨_, .ref (fun a ha => hnamed ⟨a, ha⟩) hparen hjoins⟩

/-- Some first tokens spell an item or make no sense. -/
theorem exists_first (limits : Limits) (t : Token) (rest : List Token) :
    ∃ ts us, t :: rest = ts ++ us ∧ ts ≠ [] ∧
      ((∃ i, Spells limits i ts ∧ i.Stops us) ∨ ∃ m, Fails limits m ts us) := by
  cases t with
  | number x => exact ⟨_, rest, rfl, by simp, Or.inl ⟨_, .number x, trivial⟩⟩
  | text s => exact ⟨_, rest, rfl, by simp, Or.inl ⟨_, .text s, trivial⟩⟩
  | operator o => exact ⟨_, rest, rfl, by simp, Or.inl ⟨_, .operator o, trivial⟩⟩
  | leftParen => exact ⟨_, rest, rfl, by simp, Or.inl ⟨_, .leftParen, trivial⟩⟩
  | rightParen => exact ⟨_, rest, rfl, by simp, Or.inl ⟨_, .rightParen, trivial⟩⟩
  | comma => exact ⟨_, rest, rfl, by simp, Or.inl ⟨_, .comma, trivial⟩⟩
  | row r => exact ⟨_, rest, rfl, by simp, Or.inr ⟨_, .row r rest⟩⟩
  | colon => exact ⟨_, rest, rfl, by simp, Or.inr ⟨_, .colon rest⟩⟩
  | unknown c => exact ⟨_, rest, rfl, by simp, Or.inr ⟨_, .unknown c rest⟩⟩
  | name n =>
    by_cases hparen : rest.head? = some .leftParen
    · obtain ⟨us, rfl⟩ := List.head?_eq_some_iff.mp hparen
      exact ⟨[.name n, .leftParen], us, rfl, by simp, Or.inl ⟨_, .call n, trivial⟩⟩
    · exact ⟨[.name n], rest, rfl, by simp, Or.inr ⟨_, .name n hparen⟩⟩
  | column c =>
    by_cases hrow : ∃ r, rest.head? = some (.row r)
    · obtain ⟨r, hr⟩ := hrow
      obtain ⟨us, rfl⟩ := List.head?_eq_some_iff.mp hr
      exact exists_first_reference limits c r us
    by_cases hparen : rest.head? = some .leftParen
    · obtain ⟨us, rfl⟩ := List.head?_eq_some_iff.mp hparen
      exact ⟨[.column c, .leftParen], us, rfl, by simp, Or.inl ⟨_, .callColumn c, trivial⟩⟩
    · exact ⟨[.column c], rest, rfl, by simp,
        Or.inr ⟨_, .column c (fun r hr => hrow ⟨r, hr⟩) hparen⟩⟩

theorem exists_reads (limits : Limits) (ts : List Token) : ∃ is, Reads limits is ts := by
  induction hn : ts.length using Nat.strongRecOn generalizing ts with
  | ind n ih =>
    subst hn
    cases ts with
    | nil => exact ⟨[], .nil⟩
    | cons t rest =>
      obtain ⟨ts, us, hts, hne, hfirst⟩ := exists_first limits t rest
      have hlt : us.length < (t :: rest).length := by
        rw [hts, List.length_append]
        have := List.length_pos_iff.mpr hne
        omega
      obtain ⟨is, his⟩ := ih _ hlt us rfl
      rw [hts]
      rcases hfirst with ⟨i, hi, hstops⟩ | ⟨m, hm⟩
      · exact ⟨i :: is, .item hi hstops his⟩
      · exact ⟨.failure m :: is, .failure hm his⟩

/-- **Every list of tokens has one reading**, which is what is found in it. -/
theorem reads_iff : Reads limits is ts ↔ ofTokens limits ts = is := by
  constructor
  · exact Reads.ofTokens_eq
  · rintro rfl
    obtain ⟨is, his⟩ := exists_reads limits ts
    rwa [his.ofTokens_eq]

theorem Reads.spelled (h : Reads limits is ts) (hno : ∀ m, .failure m ∉ is) :
    Spelled limits is ts := by
  induction h with
  | nil => exact .nil
  | item hi _ _ ih => exact .cons hi (ih fun m hm => hno m (List.mem_cons_of_mem _ hm))
  | @failure m => exact absurd List.mem_cons_self (hno m)

/-- Tokens in which no failure is found spell the items that are found. -/
theorem spelled_ofTokens (h : ∀ m, .failure m ∉ ofTokens limits ts) :
    Spelled limits (ofTokens limits ts) ts := (reads_iff.mpr rfl).spelled h

end Spreadsheet.Item
