/-! # UTF-8

Texts in files are bytes. `Utf8.decode` reads characters as long as the bytes encode some, and
leaves the bytes behind the last character: none if the whole file is a text. A character is encoded
in the fewest bytes there are for it, and surrogates are no characters. -/

namespace Spreadsheet.Utf8

/-- The last six bits of a byte that continues a character. -/
def continuation? (b : UInt8) : Option Nat :=
  if 0x80 ≤ b && b < 0xC0 then some (b.toNat - 0x80) else none

/-- The character with a number, if it needs a longer encoding than the numbers below `least`. -/
def char? (least n : Nat) : Option Char :=
  if least ≤ n ∧ n.isValidChar then some (Char.ofNat n) else none

/-- The character at the front of some bytes, and the bytes behind it. -/
def next? : List UInt8 → Option (Char × List UInt8)
  | [] => none
  | b :: rest =>
    if b < 0x80 then some (Char.ofNat b.toNat, rest)
    else if b < 0xC0 then none
    else if b < 0xE0 then
      match rest with
      | c :: rest => do
        let c ← continuation? c
        return (← char? 0x80 ((b.toNat - 0xC0) <<< 6 + c), rest)
      | _ => none
    else if b < 0xF0 then
      match rest with
      | c :: d :: rest => do
        let c ← continuation? c
        let d ← continuation? d
        return (← char? 0x800 ((b.toNat - 0xE0) <<< 12 + c <<< 6 + d), rest)
      | _ => none
    else
      match rest with
      | c :: d :: e :: rest => do
        let c ← continuation? c
        let d ← continuation? d
        let e ← continuation? e
        return (← char? 0x10000 ((b.toNat - 0xF0) <<< 18 + c <<< 12 + d <<< 6 + e), rest)
      | _ => none

theorem next?_length {bytes : List UInt8} {c : Char} {rest : List UInt8}
    (h : next? bytes = some (c, rest)) : rest.length < bytes.length := by
  unfold next? at h
  split at h
  · cases h
  · split at h
    · simp only [Option.some.injEq, Prod.mk.injEq] at h; rw [← h.2]; simp
    · split at h
      · cases h
      · split at h
        · split at h
          · simp only [bind, Option.bind_eq_some_iff, pure, Option.some.injEq, Prod.mk.injEq] at h
            obtain ⟨_, _, _, _, _, rfl⟩ := h
            simp only [List.length_cons]; omega
          · cases h
        · split at h
          · split at h
            · simp only [bind, Option.bind_eq_some_iff, pure, Option.some.injEq,
                Prod.mk.injEq] at h
              obtain ⟨_, _, _, _, _, _, _, rfl⟩ := h
              simp only [List.length_cons]; omega
            · cases h
          · split at h
            · simp only [bind, Option.bind_eq_some_iff, pure, Option.some.injEq,
                Prod.mk.injEq] at h
              obtain ⟨_, _, _, _, _, _, _, _, _, rfl⟩ := h
              simp only [List.length_cons]; omega
            · cases h

/-- Reads characters behind those already found. -/
def decodeOnto (bytes : List UInt8) (found : Array Char) : Array Char × List UInt8 :=
  match _ : next? bytes with
  | none => (found, bytes)
  | some (c, rest) => decodeOnto rest (found.push c)
termination_by bytes.length
decreasing_by exact next?_length ‹_›

/-- **The characters that bytes encode**, and the bytes from the first one that encodes none. -/
def decode (bytes : List UInt8) : List Char × List UInt8 :=
  let (found, rest) := decodeOnto bytes #[]
  (found.toList, rest)

end Spreadsheet.Utf8
