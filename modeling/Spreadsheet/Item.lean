import Spreadsheet.Program

/-! # Items of a formula

Between its tokens and its program a formula is a list of items: operands, operators, parentheses,
commas, the openings of calls, and the places where no sense can be made of it. `Item.ofTokens`
finds them from left to right, always taking the longest one: a column and a row are a reference to
a cell, two references with a colon between them are a range, and letters before an opening
parenthesis are the name of a function, even if they look like a reference. -/

namespace Spreadsheet

/-- A part of a formula. -/
inductive Item where
  /-- Something to compute with. -/
  | operand (o : Operand)
  /-- A place where the formula is malformed. -/
  | failure (m : Marker)
  /-- An operator, or the sign of an operand. -/
  | operator (o : Operator)
  /-- An opening parenthesis that belongs to no call. -/
  | leftParen
  | rightParen
  | comma
  /-- The name of a function and its opening parenthesis. -/
  | call (name : String)
  deriving DecidableEq

namespace Item

/-- The cell of the sheet in the given column and row. -/
def resolve? (limits : Limits) (column row : String) : Option Address :=
  match Row.read? row.toList, Column.read column.toList with
  | some r, .ok c => if limits.contains ⟨r, c⟩ then some ⟨r, c⟩ else none
  | _, _ => none

/-- A reference at the front, a column and a row that no parenthesis follows: the cell, if the sheet
has it, and the tokens behind. -/
def reference? (limits : Limits) : List Token → Option (Option Address × List Token)
  | .column _ :: .row _ :: .leftParen :: _ => none
  | .column c :: .row r :: rest => some (resolve? limits c r, rest)
  | _ => none

/-- A name at the front, which is letters, or letters and digits before a parenthesis, and the
tokens behind. -/
def name? : List Token → Option (String × List Token)
  | .name n :: rest => some (n, rest)
  | .column c :: .row r :: rest => some (c ++ r, rest)
  | .column c :: rest => some (c, rest)
  | _ => none

/-- A reference to a cell, if the sheet has it. -/
def ofCell : Option Address → Item
  | some a => operand (.ref a)
  | none => failure .ref

/-- A range with two corners, if the sheet has them. -/
def ofCorners : Option Address → Option Address → Item
  | some a, some b => operand (.range (.spanning a b))
  | _, _ => failure .ref

/-- The item that a token is on its own. A colon has its place between references only, and digits
behind letters. -/
def ofToken : Token → Item
  | .number x => operand (.number x)
  | .text s => operand (.text s)
  | .operator o => operator o
  | .leftParen => leftParen
  | .rightParen => rightParen
  | .comma => comma
  | .name _ | .column _ => failure .name
  | .row _ | .colon | .unknown _ => failure .error

/-- The first item of some tokens, and the tokens behind it. -/
def next (limits : Limits) (t : Token) (rest : List Token) : Item × List Token :=
  match reference? limits (t :: rest) with
  | some (a, .colon :: behind) =>
    match reference? limits behind with
    | some (b, behind) => (ofCorners a b, behind)
    | none => (ofCell a, .colon :: behind)
  | some (a, behind) => (ofCell a, behind)
  | none =>
    match name? (t :: rest) with
    | some (n, .leftParen :: behind) => (call n, behind)
    | some (_, behind) => (failure .name, behind)
    | none => (ofToken t, rest)

theorem reference?_length {limits : Limits} {ts : List Token} {a : Option Address}
    {rest : List Token} (h : reference? limits ts = some (a, rest)) :
    rest.length + 2 = ts.length := by
  unfold reference? at h
  split at h
  · cases h
  · simp only [Option.some.injEq, Prod.mk.injEq] at h
    rw [← h.2]; rfl
  · cases h

theorem name?_length {ts : List Token} {n : String} {rest : List Token}
    (h : name? ts = some (n, rest)) : rest.length < ts.length := by
  unfold name? at h
  split at h <;> simp only [Option.some.injEq, Prod.mk.injEq, reduceCtorEq] at h
  all_goals rw [← h.2]; simp only [List.length_cons]; omega

/-- **An item takes at least one token.** -/
theorem next_length (limits : Limits) (t : Token) (rest : List Token) :
    (next limits t rest).2.length ≤ rest.length := by
  unfold next
  split
  · next a behind h =>
    have h1 := reference?_length h
    simp only [List.length_cons] at h1
    split
    · next b behind' h' =>
      have h2 := reference?_length h'
      simp only; omega
    · simp only [List.length_cons]; omega
  · next a behind _ h =>
    have h1 := reference?_length h
    simp only [List.length_cons] at h1 ⊢; omega
  · split
    · next h => have := name?_length h; simp only [List.length_cons] at this ⊢; omega
    · next h => have := name?_length h; simp only [List.length_cons] at this ⊢; omega
    · exact Nat.le_refl _

/-- The items of some tokens, behind those already found. -/
def scan (limits : Limits) (ts : List Token) (found : Array Item) : Array Item :=
  match ts with
  | [] => found
  | t :: rest => scan limits (next limits t rest).2 (found.push (next limits t rest).1)
termination_by ts.length
decreasing_by exact Nat.lt_succ_of_le (next_length limits t rest)

/-- **The items of a formula.** -/
def ofTokens (limits : Limits) (ts : List Token) : List Item := (scan limits ts #[]).toList

/-- What is already found stays in front. -/
theorem toList_scan (limits : Limits) (ts : List Token) (found : Array Item) :
    (scan limits ts found).toList = found.toList ++ ofTokens limits ts := by
  unfold ofTokens
  induction h : ts.length using Nat.strongRecOn generalizing ts found with
  | ind n ih =>
    subst h
    cases ts with
    | nil => simp [scan]
    | cons t rest =>
      have hl : (next limits t rest).2.length < (t :: rest).length := by
        simpa using Nat.lt_succ_of_le (next_length limits t rest)
      rw [scan, scan, ih _ hl _ _ rfl, ih _ hl _ (#[].push (next limits t rest).1) rfl]
      simp

@[simp] theorem ofTokens_nil (limits : Limits) : ofTokens limits [] = [] := by
  simp [ofTokens, scan]

theorem ofTokens_cons (limits : Limits) (t : Token) (rest : List Token) :
    ofTokens limits (t :: rest) =
      (next limits t rest).1 :: ofTokens limits (next limits t rest).2 := by
  rw [ofTokens, scan, toList_scan]
  simp

end Item

end Spreadsheet
