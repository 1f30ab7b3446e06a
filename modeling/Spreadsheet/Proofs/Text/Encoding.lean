import Spreadsheet.Text.Utf8
import Mathlib.Data.List.Basic

/-! # The bytes of texts

`String.utf8EncodeChar` says which bytes a character has. Main statements: `next?_eq_some_iff`, a
character is read exactly where its bytes stand, and `decode_eq_iff`, the characters that are read
from any bytes are the longest text at their front: behind it no character begins.

Bytes below 128 are characters of their own and occur in no other character (`countP_encode`). -/

namespace Spreadsheet.Utf8

open String (utf8EncodeChar)

variable {bytes rest : List UInt8} {b : UInt8} {c : Char} {n : Nat}

theorem toNat_eq_iff : c.toNat = n ↔ n.isValidChar ∧ Char.ofNat n = c := by
  constructor
  · rintro rfl
    exact ⟨c.valid, Char.ofNat_toNat c⟩
  · rintro ⟨hn, rfl⟩
    rw [Char.ofNat, dif_pos hn]
    rfl

theorem toNat_lt (c : Char) : c.toNat < 0x110000 := by
  have h : c.toNat.isValidChar := c.valid
  simp only [Nat.isValidChar] at h
  omega

theorem char?_eq_some {least : Nat} : char? least n = some c ↔ least ≤ n ∧ c.toNat = n := by
  unfold char?
  rw [toNat_eq_iff]
  split
  · next h => simp [h]
  · next h =>
    simp only [reduceCtorEq, false_iff]
    rintro ⟨hle, hn, -⟩
    exact h ⟨hle, hn⟩

theorem continuation?_eq_some : continuation? b = some n ↔ b.toNat = n + 0x80 ∧ n < 64 := by
  have hb := b.toNat_lt
  simp only [continuation?, Bool.and_eq_true, decide_eq_true_eq, UInt8.le_iff_toNat_le,
    UInt8.lt_iff_toNat_lt, UInt8.reduceToNat]
  split
  · simp only [Option.some.injEq]
    omega
  · simp only [reduceCtorEq, false_iff]
    omega

theorem toNat_ofNat (hn : n < 256) : (UInt8.ofNat n).toNat = n := UInt8.toNat_ofNat_of_lt' hn

theorem eq_ofNat_iff (hn : n < 256) : b = UInt8.ofNat n ↔ b.toNat = n := by
  rw [← UInt8.toNat_inj, toNat_ofNat hn]

/-! ### The bytes of a character -/

theorem encodeChar_one (h : c.toNat < 0x80) : utf8EncodeChar c = [UInt8.ofNat c.toNat] := by
  have hv : c.val.toNat = c.toNat := rfl
  rw [utf8EncodeChar, hv, if_pos (by omega)]

theorem encodeChar_two (h : 0x80 ≤ c.toNat) (h' : c.toNat < 0x800) :
    utf8EncodeChar c =
      [UInt8.ofNat (c.toNat / 64 + 0xC0), UInt8.ofNat (c.toNat % 64 + 0x80)] := by
  have hv : c.val.toNat = c.toNat := rfl
  have hfirst : c.toNat / 64 % 32 = c.toNat / 64 := by omega
  rw [utf8EncodeChar, hv, if_neg (by omega), if_pos (by omega), hfirst]

theorem encodeChar_three (h : 0x800 ≤ c.toNat) (h' : c.toNat < 0x10000) :
    utf8EncodeChar c =
      [UInt8.ofNat (c.toNat / 4096 + 0xE0), UInt8.ofNat (c.toNat / 64 % 64 + 0x80),
        UInt8.ofNat (c.toNat % 64 + 0x80)] := by
  have hv : c.val.toNat = c.toNat := rfl
  have hfirst : c.toNat / 4096 % 16 = c.toNat / 4096 := by omega
  rw [utf8EncodeChar, hv, if_neg (by omega), if_neg (by omega), if_pos (by omega), hfirst]

theorem encodeChar_four (h : 0x10000 ≤ c.toNat) :
    utf8EncodeChar c =
      [UInt8.ofNat (c.toNat / 262144 + 0xF0), UInt8.ofNat (c.toNat / 4096 % 64 + 0x80),
        UInt8.ofNat (c.toNat / 64 % 64 + 0x80), UInt8.ofNat (c.toNat % 64 + 0x80)] := by
  have hv : c.val.toNat = c.toNat := rfl
  have hc := toNat_lt c
  have hfirst : c.toNat / 262144 % 8 = c.toNat / 262144 := by omega
  rw [utf8EncodeChar, hv, if_neg (by omega), if_neg (by omega), if_neg (by omega), hfirst]

/-! ### The character at the front of some bytes -/

theorem next?_one (h : b.toNat < 0x80) :
    next? (b :: bytes) = some (c, rest) ↔ b.toNat = c.toNat ∧ bytes = rest := by
  have hvalid : b.toNat.isValidChar := by simp only [Nat.isValidChar]; omega
  have hc : Char.ofNat b.toNat = c ↔ b.toNat = c.toNat := by
    rw [eq_comm (a := b.toNat), toNat_eq_iff, and_iff_right hvalid]
  simp only [next?, UInt8.lt_iff_toNat_lt, UInt8.reduceToNat, h, if_true, Option.some.injEq,
    Prod.mk.injEq, hc]

theorem next?_stray (h : 0x80 ≤ b.toNat) (h' : b.toNat < 0xC0) : next? (b :: bytes) = none := by
  simp only [next?, UInt8.lt_iff_toNat_lt, UInt8.reduceToNat]
  rw [if_neg (by omega), if_pos h']

theorem next?_two (h : 0xC0 ≤ b.toNat) (h' : b.toNat < 0xE0) :
    next? (b :: bytes) = some (c, rest) ↔ 0x80 ≤ c.toNat ∧ b.toNat = c.toNat / 64 + 0xC0 ∧
      ∃ d, d.toNat = c.toNat % 64 + 0x80 ∧ bytes = d :: rest := by
  simp only [next?, UInt8.lt_iff_toNat_lt, UInt8.reduceToNat]
  rw [if_neg (by omega), if_neg (by omega), if_pos h']
  rcases bytes with _ | ⟨d, bytes⟩
  · simp
  simp only [bind, Option.bind_eq_some_iff, pure, continuation?_eq_some, char?_eq_some,
    Nat.shiftLeft_eq, Option.some.injEq, Prod.mk.injEq, List.cons.injEq]
  constructor
  · rintro ⟨n, hd, _, hc, rfl, rfl⟩
    exact ⟨by omega, by omega, d, by omega, rfl, rfl⟩
  · rintro ⟨hle, hb, _, hd, rfl, rfl⟩
    exact ⟨c.toNat % 64, by omega, c, by omega, rfl, rfl⟩

theorem next?_three (h : 0xE0 ≤ b.toNat) (h' : b.toNat < 0xF0) :
    next? (b :: bytes) = some (c, rest) ↔ 0x800 ≤ c.toNat ∧ b.toNat = c.toNat / 4096 + 0xE0 ∧
      ∃ d e, d.toNat = c.toNat / 64 % 64 + 0x80 ∧ e.toNat = c.toNat % 64 + 0x80 ∧
        bytes = d :: e :: rest := by
  simp only [next?, UInt8.lt_iff_toNat_lt, UInt8.reduceToNat]
  rw [if_neg (by omega), if_neg (by omega), if_neg (by omega), if_pos h']
  rcases bytes with _ | ⟨d, _ | ⟨e, bytes⟩⟩
  · simp
  · simp
  simp only [bind, Option.bind_eq_some_iff, pure, continuation?_eq_some, char?_eq_some,
    Nat.shiftLeft_eq, Option.some.injEq, Prod.mk.injEq, List.cons.injEq]
  constructor
  · rintro ⟨n, hd, m, he, _, hc, rfl, rfl⟩
    exact ⟨by omega, by omega, d, e, by omega, by omega, rfl, rfl, rfl⟩
  · rintro ⟨hle, hb, _, _, hd, he, rfl, rfl, rfl⟩
    exact ⟨c.toNat / 64 % 64, by omega, c.toNat % 64, by omega, c, by omega, rfl, rfl⟩

theorem next?_four (h : 0xF0 ≤ b.toNat) :
    next? (b :: bytes) = some (c, rest) ↔ 0x10000 ≤ c.toNat ∧ b.toNat = c.toNat / 262144 + 0xF0 ∧
      ∃ d e f, d.toNat = c.toNat / 4096 % 64 + 0x80 ∧ e.toNat = c.toNat / 64 % 64 + 0x80 ∧
        f.toNat = c.toNat % 64 + 0x80 ∧ bytes = d :: e :: f :: rest := by
  simp only [next?, UInt8.lt_iff_toNat_lt, UInt8.reduceToNat]
  rw [if_neg (by omega), if_neg (by omega), if_neg (by omega), if_neg (by omega)]
  rcases bytes with _ | ⟨d, _ | ⟨e, _ | ⟨f, bytes⟩⟩⟩
  · simp
  · simp
  · simp
  simp only [bind, Option.bind_eq_some_iff, pure, continuation?_eq_some, char?_eq_some,
    Nat.shiftLeft_eq, Option.some.injEq, Prod.mk.injEq, List.cons.injEq]
  constructor
  · rintro ⟨n, hd, m, he, k, hf, _, hc, rfl, rfl⟩
    exact ⟨by omega, by omega, d, e, f, by omega, by omega, by omega, rfl, rfl, rfl, rfl⟩
  · rintro ⟨hle, hb, _, _, _, hd, he, hf, rfl, rfl, rfl, rfl⟩
    exact ⟨c.toNat / 4096 % 64, by omega, c.toNat / 64 % 64, by omega, c.toNat % 64, by omega, c,
      by omega, rfl, rfl⟩

theorem eq_encodeChar_append (h : next? bytes = some (c, rest)) :
    bytes = utf8EncodeChar c ++ rest := by
  rcases bytes with _ | ⟨b, bytes⟩
  · cases h
  have hb := b.toNat_lt
  have hc := toNat_lt c
  rcases Nat.lt_or_ge b.toNat 0x80 with h1 | h1
  · obtain ⟨hb, rfl⟩ := (next?_one h1).mp h
    rw [encodeChar_one (by omega), (eq_ofNat_iff (by omega)).mpr hb]
    rfl
  rcases Nat.lt_or_ge b.toNat 0xC0 with h2 | h2
  · rw [next?_stray h1 h2] at h
    cases h
  rcases Nat.lt_or_ge b.toNat 0xE0 with h3 | h3
  · obtain ⟨hle, hb, d, hd, rfl⟩ := (next?_two h2 h3).mp h
    rw [encodeChar_two hle (by omega), (eq_ofNat_iff (by omega)).mpr hb,
      (eq_ofNat_iff (by omega)).mpr hd]
    rfl
  rcases Nat.lt_or_ge b.toNat 0xF0 with h4 | h4
  · obtain ⟨hle, hb, d, e, hd, he, rfl⟩ := (next?_three h3 h4).mp h
    rw [encodeChar_three hle (by omega), (eq_ofNat_iff (by omega)).mpr hb,
      (eq_ofNat_iff (by omega)).mpr hd, (eq_ofNat_iff (by omega)).mpr he]
    rfl
  · obtain ⟨hle, hb, d, e, f, hd, he, hf, rfl⟩ := (next?_four h4).mp h
    rw [encodeChar_four hle, (eq_ofNat_iff (by omega)).mpr hb,
      (eq_ofNat_iff (by omega)).mpr hd, (eq_ofNat_iff (by omega)).mpr he,
      (eq_ofNat_iff (by omega)).mpr hf]
    rfl

theorem next?_encodeChar_append (c : Char) (rest : List UInt8) :
    next? (utf8EncodeChar c ++ rest) = some (c, rest) := by
  have hc := toNat_lt c
  rcases Nat.lt_or_ge c.toNat 0x80 with h1 | h1
  · have hfirst := toNat_ofNat (n := c.toNat) (by omega)
    rw [encodeChar_one h1]
    exact (next?_one (by omega)).mpr ⟨hfirst, rfl⟩
  rcases Nat.lt_or_ge c.toNat 0x800 with h2 | h2
  · have hfirst := toNat_ofNat (n := c.toNat / 64 + 0xC0) (by omega)
    rw [encodeChar_two h1 h2]
    exact (next?_two (by omega) (by omega)).mpr ⟨h1, hfirst, _, toNat_ofNat (by omega), rfl⟩
  rcases Nat.lt_or_ge c.toNat 0x10000 with h3 | h3
  · have hfirst := toNat_ofNat (n := c.toNat / 4096 + 0xE0) (by omega)
    rw [encodeChar_three h2 h3]
    exact (next?_three (by omega) (by omega)).mpr
      ⟨h2, hfirst, _, _, toNat_ofNat (by omega), toNat_ofNat (by omega), rfl⟩
  · have hfirst := toNat_ofNat (n := c.toNat / 262144 + 0xF0) (by omega)
    rw [encodeChar_four h3]
    exact (next?_four (by omega)).mpr
      ⟨h3, hfirst, _, _, _, toNat_ofNat (by omega), toNat_ofNat (by omega),
        toNat_ofNat (by omega), rfl⟩

/-- **A character is read exactly where its bytes stand.** -/
theorem next?_eq_some_iff : next? bytes = some (c, rest) ↔ bytes = utf8EncodeChar c ++ rest := by
  constructor
  · exact eq_encodeChar_append
  · rintro rfl
    exact next?_encodeChar_append c rest

/-! ### Texts -/

/-- The bytes of a text. -/
def encode (cs : List Char) : List UInt8 := cs.flatMap utf8EncodeChar

@[simp] theorem encode_nil : encode [] = [] := rfl

@[simp] theorem encode_cons (c : Char) (cs : List Char) :
    encode (c :: cs) = utf8EncodeChar c ++ encode cs := List.flatMap_cons

theorem encode_append (cs ds : List Char) : encode (cs ++ ds) = encode cs ++ encode ds :=
  List.flatMap_append

theorem decodeOnto_encode_append (cs : List Char) (found : Array Char) (h : next? rest = none) :
    decodeOnto (encode cs ++ rest) found = (found ++ cs.toArray, rest) := by
  induction cs generalizing found with
  | nil =>
    rw [encode_nil, List.nil_append, decodeOnto]
    split
    · simp
    · next h' => rw [h] at h'; cases h'
  | cons c cs ih =>
    rw [encode_cons, List.append_assoc, decodeOnto]
    split
    · next h' => rw [next?_encodeChar_append] at h'; cases h'
    · next d rest' h' =>
      rw [next?_encodeChar_append, Option.some.injEq, Prod.mk.injEq] at h'
      rw [← h'.1, ← h'.2, ih]
      simp

/-- What stands at the front of some bytes: characters, and behind them what begins with none. -/
theorem exists_eq_encode_append (bytes : List UInt8) :
    ∃ cs rest, bytes = encode cs ++ rest ∧ next? rest = none := by
  induction h : bytes.length using Nat.strongRecOn generalizing bytes with
  | ind n ih =>
    subst h
    cases hnext : next? bytes with
    | none => exact ⟨[], bytes, rfl, hnext⟩
    | some p =>
      obtain ⟨cs, rest, hrest, hstuck⟩ := ih _ (next?_length hnext) p.2 rfl
      refine ⟨p.1 :: cs, rest, ?_, hstuck⟩
      rw [next?_eq_some_iff.mp hnext, encode_cons, List.append_assoc, ← hrest]

/-- **The characters that are read** are those whose bytes stand at the front, as many as there
are. -/
theorem decode_eq_iff {cs : List Char} :
    decode bytes = (cs, rest) ↔ bytes = encode cs ++ rest ∧ next? rest = none := by
  have hread : ∀ {cs rest}, next? rest = none → decode (encode cs ++ rest) = (cs, rest) := by
    intro cs rest h
    rw [decode, decodeOnto_encode_append cs #[] h]
    simp
  constructor
  · intro h
    obtain ⟨ds, rest', rfl, hstuck⟩ := exists_eq_encode_append bytes
    rw [hread hstuck, Prod.mk.injEq] at h
    rw [← h.1, ← h.2]
    exact ⟨rfl, hstuck⟩
  · rintro ⟨rfl, h⟩
    exact hread h

theorem next?_eq_none_iff : next? bytes = none ↔ ∀ c, ¬ utf8EncodeChar c <+: bytes := by
  constructor
  · rintro h c ⟨rest, rfl⟩
    rw [next?_encodeChar_append] at h
    cases h
  · intro h
    by_contra hne
    obtain ⟨p, hp⟩ := Option.ne_none_iff_exists'.mp hne
    exact h p.1 ⟨p.2, (next?_eq_some_iff.mp hp).symm⟩

theorem isValidUTF8_iff : bytes.toByteArray.IsValidUTF8 ↔ ∃ cs, bytes = encode cs := by
  constructor
  · rintro ⟨cs, h⟩
    exact ⟨cs, List.toByteArray_inj.mp h⟩
  · rintro ⟨cs, rfl⟩
    exact ⟨cs, rfl⟩

/-! ### Bytes below 128 -/

theorem le_of_mem_encodeChar (h : 0x80 ≤ c.toNat) (hb : b ∈ utf8EncodeChar c) :
    0x80 ≤ b.toNat := by
  have hc := toNat_lt c
  rcases Nat.lt_or_ge c.toNat 0x800 with h2 | h2
  · rw [encodeChar_two h h2] at hb
    simp only [List.mem_cons, List.not_mem_nil, or_false] at hb
    rcases hb with rfl | rfl
    all_goals rw [toNat_ofNat (by omega)]; omega
  rcases Nat.lt_or_ge c.toNat 0x10000 with h3 | h3
  · rw [encodeChar_three h2 h3] at hb
    simp only [List.mem_cons, List.not_mem_nil, or_false] at hb
    rcases hb with rfl | rfl | rfl
    all_goals rw [toNat_ofNat (by omega)]; omega
  · rw [encodeChar_four h3] at hb
    simp only [List.mem_cons, List.not_mem_nil, or_false] at hb
    rcases hb with rfl | rfl | rfl | rfl
    all_goals rw [toNat_ofNat (by omega)]; omega

/-- Whether a byte has the number of a character. -/
def looksLike (d : Char) (b : UInt8) : Bool := b.toNat == d.toNat

theorem countP_encodeChar {d : Char} (hd : d.toNat < 0x80) (c : Char) :
    (utf8EncodeChar c).countP (looksLike d) = if c = d then 1 else 0 := by
  rcases Nat.lt_or_ge c.toNat 0x80 with h | h
  · rw [encodeChar_one h, List.countP_singleton, looksLike, toNat_ofNat (by omega)]
    simp only [beq_iff_eq, Char.toNat_inj]
  · have hne : c ≠ d := by
      rintro rfl
      omega
    rw [if_neg hne, List.countP_eq_zero]
    intro b hb
    have := le_of_mem_encodeChar h hb
    rw [looksLike, beq_iff_eq]
    omega

/-- **A byte below 128 is a character of its own.** -/
theorem countP_encode {d : Char} (hd : d.toNat < 0x80) (cs : List Char) :
    (encode cs).countP (looksLike d) = cs.count d := by
  induction cs with
  | nil => rfl
  | cons c cs ih =>
    rw [encode_cons, List.countP_append, countP_encodeChar hd, ih, List.count_cons, Nat.add_comm]
    simp only [beq_iff_eq]

end Spreadsheet.Utf8
