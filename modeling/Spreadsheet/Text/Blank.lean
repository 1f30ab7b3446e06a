/-! # White space

The characters that separate words, as the Unicode property `White_Space` has them, and trimming.
Trimming takes the blanks at the ends (`trimStart_head`, `trim_append`) and nothing of a text that
has none there (`trim_eq_self`). What is trimmed on one side has no bearing on the other
(`trim_append_cons`). -/

namespace Spreadsheet.Text

/-- The first and the last number of each run of characters with the Unicode property
`White_Space`. -/
def blankRuns : List (Nat × Nat) :=
  [(0x09, 0x0D), (0x20, 0x20), (0x85, 0x85), (0xA0, 0xA0), (0x1680, 0x1680), (0x2000, 0x200A),
    (0x2028, 0x2029), (0x202F, 0x202F), (0x205F, 0x205F), (0x3000, 0x3000)]

/-- Whether a character is white space. -/
def isBlank (c : Char) : Bool := blankRuns.any fun r => r.1 ≤ c.toNat && c.toNat ≤ r.2

def trimStart (cs : List Char) : List Char := cs.dropWhile isBlank

def trimEnd (cs : List Char) : List Char := (cs.reverse.dropWhile isBlank).reverse

def trim (cs : List Char) : List Char := trimEnd (trimStart cs)

@[simp] theorem trimStart_nil : trimStart [] = [] := rfl

theorem trimStart_cons (c : Char) (cs : List Char) :
    trimStart (c :: cs) = if isBlank c then trimStart cs else c :: cs := by
  simp [trimStart, List.dropWhile_cons]

/-- What is left after trimming the front does not begin with a blank. -/
theorem trimStart_head {c : Char} {cs rest : List Char} (h : trimStart cs = c :: rest) :
    isBlank c = false := by
  induction cs with
  | nil => simp at h
  | cons d ds ih =>
    rw [trimStart_cons] at h
    split at h
    · exact ih h
    · simp_all

theorem trimStart_eq_nil_iff {cs : List Char} : trimStart cs = [] ↔ ∀ c ∈ cs, isBlank c = true := by
  induction cs with
  | nil => simp
  | cons c cs ih => rw [trimStart_cons]; cases h : isBlank c <;> simp [h, ih]

theorem trimStart_append {ws cs : List Char} (h : ∀ c ∈ ws, isBlank c = true) :
    trimStart (ws ++ cs) = trimStart cs := by
  induction ws with
  | nil => rfl
  | cons c ws ih => simp_all [trimStart_cons]

theorem trimEnd_append {ws cs : List Char} (h : ∀ c ∈ ws, isBlank c = true) :
    trimEnd (cs ++ ws) = trimEnd cs := by
  have : trimStart (ws.reverse ++ cs.reverse) = trimStart cs.reverse :=
    trimStart_append (by simpa using h)
  simp only [trimStart] at this
  simp [trimEnd, this]

theorem trimEnd_of_getLast? {cs : List Char} (h : ∀ c ∈ cs.getLast?, isBlank c = false) :
    trimEnd cs = cs := by
  rw [← List.head?_reverse] at h
  unfold trimEnd
  cases hcs : cs.reverse with
  | nil => rw [List.dropWhile_nil, ← hcs, List.reverse_reverse]
  | cons c ds =>
    have hc : isBlank c = false := h c (by rw [hcs]; rfl)
    rw [List.dropWhile_cons_of_neg (by simp [hc]), ← hcs, List.reverse_reverse]

theorem trim_eq_self {c : Char} {cs : List Char} (hc : isBlank c = false)
    (h : ∀ d ∈ (c :: cs).getLast?, isBlank d = false) : trim (c :: cs) = c :: cs := by
  rw [trim, trimStart_cons, if_neg (by simp [hc]), trimEnd_of_getLast? h]

theorem trim_eq_self_of_forall {cs : List Char} (h : ∀ c ∈ cs, isBlank c = false) :
    trim cs = cs := by
  cases cs with
  | nil => rfl
  | cons c cs =>
    exact trim_eq_self (h c List.mem_cons_self) fun d hd => h d (List.mem_of_getLast? hd)

theorem trimStart_append_cons {c : Char} {cs ds : List Char} (hc : isBlank c = false) :
    trimStart (cs ++ c :: ds) = trimStart cs ++ c :: ds := by
  rw [trimStart, List.dropWhile_append]
  split
  · next hnil =>
    rw [trimStart, List.isEmpty_iff.mp hnil, List.dropWhile_cons_of_neg (by simp [hc]),
      List.nil_append]
  · rfl

theorem trimEnd_append_cons {c : Char} {cs ds : List Char} (hc : isBlank c = false) :
    trimEnd (cs ++ c :: ds) = cs ++ c :: trimEnd ds := by
  have h : trimStart (ds.reverse ++ c :: cs.reverse) = trimStart ds.reverse ++ c :: cs.reverse :=
    trimStart_append_cons hc
  have hreverse : (cs ++ c :: ds).reverse = ds.reverse ++ c :: cs.reverse := by simp
  rw [trimEnd, hreverse]
  simp only [trimStart] at h
  simp [trimEnd, h]

/-- A character that is no blank keeps what trimming takes on one side from the other side. -/
theorem trim_append_cons {c : Char} {cs ds : List Char} (hc : isBlank c = false) :
    trim (cs ++ c :: ds) = trimStart cs ++ c :: trimEnd ds := by
  rw [trim, trimStart_append_cons hc, trimEnd_append_cons hc]

/-- Blanks behind a text are trimmed. -/
theorem trim_append {cs vs : List Char} (hv : ∀ c ∈ vs, isBlank c = true) :
    trim (cs ++ vs) = trim cs := by
  rw [trim, trimStart, List.dropWhile_append]
  split
  · next hnil =>
    have hcs : trimStart cs = [] := List.isEmpty_iff.mp hnil
    have hvs : List.dropWhile isBlank vs = [] := trimStart_eq_nil_iff.mpr hv
    rw [trim, hcs, hvs]
  · exact trimEnd_append hv

theorem trim_trimStart (cs : List Char) : trim (trimStart cs) = trim cs := by
  have hw : ∀ c ∈ cs.takeWhile isBlank, isBlank c = true :=
    List.all_eq_true.mp List.all_takeWhile
  have happend : cs.takeWhile isBlank ++ trimStart cs = cs := List.takeWhile_append_dropWhile
  have htrim : trimStart (cs.takeWhile isBlank ++ trimStart cs) = trimStart (trimStart cs) :=
    trimStart_append hw
  rw [trim, trim, ← htrim, happend]

theorem trim_trimEnd (cs : List Char) : trim (trimEnd cs) = trim cs := by
  have hv : ∀ c ∈ (cs.reverse.takeWhile isBlank).reverse, isBlank c = true := by
    simpa using List.all_eq_true.mp (List.all_takeWhile (p := isBlank) (l := cs.reverse))
  have happend : trimEnd cs ++ (cs.reverse.takeWhile isBlank).reverse = cs := by
    rw [trimEnd, ← List.reverse_append, List.takeWhile_append_dropWhile, List.reverse_reverse]
  rw [← trim_append hv, happend]

end Spreadsheet.Text
