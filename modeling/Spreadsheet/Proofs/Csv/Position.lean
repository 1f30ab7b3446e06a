import Spreadsheet.Csv.Import
import Spreadsheet.Proofs.Text.Encoding
import Spreadsheet.Proofs.Text.Joining
import Mathlib.Data.List.DropRight

/-! # Where bytes stop being a text

A file that is no text is refused with the place behind the longest text at its front. The row is
that of the line in which the text ends. The column is found by counting bytes of this line that
have the number of the delimiter: `ofBytes_of_breaks`.

Main statement: `ofBytes_place_iff`. The column is the field in which the text ends exactly if the
line has as many such bytes as delimiters. That is so for all files exactly if the delimiter is
written as a byte of its own, that is, below 128. A delimiter from 128 on is two bytes or more, and
characters other than the delimiter can have its number among their bytes. -/

namespace Spreadsheet

open String (utf8EncodeChar)

/-- Where the bytes of a file stop being those of a text: the text is at the front, something
follows, and no character begins with it. -/
structure Utf8.Breaks (bytes : List UInt8) (cs : List Char) (rest : List UInt8) : Prop where
  eq : bytes = encode cs ++ rest
  ne : rest ≠ []
  stuck : ∀ c, ¬ utf8EncodeChar c <+: rest

/-- **Bytes that are no text break somewhere.** -/
theorem Utf8.exists_breaks {bytes : List UInt8} (h : ¬ bytes.toByteArray.IsValidUTF8) :
    ∃ cs rest, Breaks bytes cs rest := by
  obtain ⟨cs, rest, heq, hstuck⟩ := exists_eq_encode_append bytes
  refine ⟨cs, rest, heq, ?_, next?_eq_none_iff.mp hstuck⟩
  rintro rfl
  rw [List.append_nil] at heq
  exact h (isValidUTF8_iff.mpr ⟨cs, heq⟩)

namespace Csv

open Utf8 (encode looksLike Breaks)

/-- What stands behind the last line feed of a text. -/
def lastLine (cs : List Char) : List Char := cs.rtakeWhile (· ≠ '\n')

/-- The place behind a text: the line and the field in which it ends, counted from one. -/
def placeOf (d : Char) (cs : List Char) : ReadError :=
  .encoding (cs.count '\n' + 1) ((lastLine cs).count d + 1)

/-! ### Line feeds among bytes -/

theorem looksLike_newline : looksLike '\n' = (· == 0x0A) := by
  funext b
  rw [looksLike, Bool.eq_iff_iff, beq_iff_eq, beq_iff_eq, ← UInt8.toNat_inj]
  exact Iff.rfl

theorem newline_notMem_encodeChar {c : Char} (h : c ≠ '\n') : 0x0A ∉ utf8EncodeChar c := by
  have hcount := Utf8.countP_encodeChar (d := '\n') (by decide) c
  rw [if_neg h, List.countP_eq_zero, looksLike_newline] at hcount
  exact fun hmem => hcount _ hmem rfl

/-- The bytes behind the last line feed are those of the last line. -/
theorem takeWhile_reverse_encode (cs : List Char) :
    (encode cs).reverse.takeWhile (· ≠ 0x0A) = (encode (lastLine cs)).reverse := by
  induction cs using List.reverseRecOn with
  | nil => rfl
  | append_singleton cs c ih =>
    rw [Utf8.encode_append, List.reverse_append]
    by_cases hc : c = '\n'
    · rw [hc, lastLine, List.rtakeWhile_concat_neg _ _ _ (by decide)]
      rfl
    · have hbytes : ∀ b ∈ (encode [c]).reverse, (decide (b ≠ 0x0A)) = true := by
        intro b hb
        have hmem : b ∈ utf8EncodeChar c := by simpa using hb
        rw [decide_eq_true_eq]
        rintro rfl
        exact newline_notMem_encodeChar hc hmem
      rw [List.takeWhile_append_of_pos hbytes, ih, lastLine, lastLine,
        List.rtakeWhile_concat_pos _ _ _ (by simpa using hc), Utf8.encode_append,
        List.reverse_append]

/-! ### The place that is reported -/

/-- The number of bytes of a text that have the number of a delimiter. -/
def lookalikes (d : Char) (cs : List Char) : Nat := (encode cs).countP (looksLike d)

theorem placeBehind_encode (d : Char) (cs : List Char) :
    placeBehind d (encode cs) =
      .encoding (cs.count '\n' + 1) (lookalikes d (lastLine cs) + 1) := by
  have hrow := Utf8.countP_encode (d := '\n') (by decide) cs
  rw [looksLike_newline] at hrow
  simp only [placeBehind, takeWhile_reverse_encode, hrow, List.countP_reverse]
  rfl

/-- **The row is that of the line in which the text ends; the column counts bytes.** -/
theorem ofBytes_of_breaks {bytes : List UInt8} {cs : List Char} {rest : List UInt8}
    (h : Breaks bytes cs rest) (d : Char) (l : Limits) :
    Import.ofBytes d l bytes =
      .error (.encoding (cs.count '\n' + 1) (lookalikes d (lastLine cs) + 1)) := by
  have hdecode : Utf8.decode bytes = (cs, rest) :=
    Utf8.decode_eq_iff.mpr ⟨h.eq, Utf8.next?_eq_none_iff.mpr h.stuck⟩
  have htake : bytes.take (bytes.length - rest.length) = encode cs := by
    rw [h.eq, List.length_append, Nat.add_sub_cancel, List.take_left]
  rw [← placeBehind_encode, ← htake, Import.ofBytes, hdecode]
  split
  · next heq => exact absurd (Prod.mk.inj heq).2 h.ne
  · next heq => rw [(Prod.mk.inj heq).2]

/-! ### Delimiters of more than one byte -/

theorem lookalikes_singleton (c d : Char) :
    lookalikes d [c] = (utf8EncodeChar c).countP (looksLike d) := by
  rw [lookalikes, Utf8.encode_cons, Utf8.encode_nil, List.append_nil]

theorem lookalikes_two {c : Char} (d : Char) (h : 0x80 ≤ c.toNat) (h' : c.toNat < 0x800) :
    lookalikes d [c] = (if c.toNat % 64 + 0x80 = d.toNat then 1 else 0) +
      if c.toNat / 64 + 0xC0 = d.toNat then 1 else 0 := by
  rw [lookalikes_singleton, Utf8.encodeChar_two h h', List.countP_cons, List.countP_singleton]
  simp only [looksLike, Utf8.toNat_ofNat (show c.toNat / 64 + 0xC0 < 256 by omega),
    Utf8.toNat_ofNat (show c.toNat % 64 + 0x80 < 256 by omega), beq_iff_eq]

/-- **A delimiter of more than one byte is miscounted somewhere**: its own bytes have its number
not at all, or another character has it among its bytes. -/
theorem exists_lookalikes_ne {d : Char} (h : 0x80 ≤ d.toNat) :
    ∃ c, c ≠ '\n' ∧ lookalikes d [c] ≠ [c].count d := by
  have hnewline : ∀ {c : Char}, 0x80 ≤ c.toNat → c ≠ '\n' := by
    rintro c hc rfl
    exact absurd hc (by decide)
  have hother : ∀ {c : Char}, c ≠ d → [c].count d = 0 := fun hne =>
    List.count_eq_zero.mpr fun hmem => hne (List.mem_singleton.mp hmem).symm
  rcases Nat.lt_or_ge d.toNat 0xC0 with hlt | hge
  · -- the character 64 places further ends with the same byte as the delimiter
    have hc : (Char.ofNat (d.toNat + 0x40)).toNat = d.toNat + 0x40 :=
      Utf8.toNat_eq_iff.mpr ⟨by simp only [Nat.isValidChar]; omega, rfl⟩
    have hne : Char.ofNat (d.toNat + 0x40) ≠ d := by
      intro heq
      rw [heq] at hc
      omega
    refine ⟨Char.ofNat (d.toNat + 0x40), hnewline (by omega), ?_⟩
    rw [lookalikes_two d (by omega) (by omega), hc, if_pos (by omega), if_neg (by omega),
      hother hne]
    exact Nat.one_ne_zero
  by_cases h195 : d.toNat = 195
  · -- the letter `À` begins with the byte 195
    have hne : 'À' ≠ d := by
      rintro rfl
      exact absurd h195 (by decide)
    refine ⟨'À', by decide, ?_⟩
    rw [lookalikes_two d (by decide) (by decide), h195, hother hne]
    decide
  · refine ⟨d, hnewline h, ?_⟩
    have hzero : lookalikes d [d] = 0 := by
      rcases Nat.lt_or_ge d.toNat 0x100 with h256 | h256
      · rw [lookalikes_two d h (by omega), if_neg (by omega), if_neg (by omega)]
      · rw [lookalikes_singleton, List.countP_eq_zero]
        intro b _
        have := b.toNat_lt
        rw [looksLike, beq_iff_eq]
        omega
    rw [hzero, List.count_singleton, if_pos (by simp)]
    exact Nat.zero_ne_one

/-- The byte 255 begins no character. -/
theorem breaks_append_stray (cs : List Char) : Breaks (encode cs ++ [0xFF]) cs [0xFF] :=
  ⟨rfl, List.cons_ne_nil _ _, Utf8.next?_eq_none_iff.mp rfl⟩

/-- **The place of what is no text.** A file that is no text is refused. The row is that of the line
in which the text at its front ends; the column is that of the field exactly if the line has as many
bytes with the number of the delimiter as delimiters. It is so for all files exactly if the
delimiter is below 128. -/
theorem ofBytes_place_iff (d : Char) :
    (∀ (l : Limits) bytes, ¬ bytes.toByteArray.IsValidUTF8 → ∃ cs rest, Breaks bytes cs rest ∧
      ∃ column, Import.ofBytes d l bytes = .error (.encoding (cs.count '\n' + 1) column) ∧
        (column = (lastLine cs).count d + 1 ↔
          lookalikes d (lastLine cs) = (lastLine cs).count d)) ∧
    ((∀ (l : Limits) bytes cs rest, Breaks bytes cs rest →
      Import.ofBytes d l bytes = .error (placeOf d cs)) ↔ d.toNat < 0x80) := by
  refine ⟨fun l bytes hbytes => ?_, fun h => ?_, fun hd l bytes cs rest hbreaks => ?_⟩
  · obtain ⟨cs, rest, hbreaks⟩ := Utf8.exists_breaks hbytes
    exact ⟨cs, rest, hbreaks, _, ofBytes_of_breaks hbreaks d l, Nat.add_right_cancel_iff⟩
  · by_contra hd
    obtain ⟨c, hc, hne⟩ := exists_lookalikes_ne (Nat.le_of_not_lt hd)
    have hline : lastLine [c] = [c] := by
      rw [lastLine, List.rtakeWhile_eq_self_iff]
      simpa using hc
    have hplace := h {} _ [c] _ (breaks_append_stray [c])
    rw [ofBytes_of_breaks (breaks_append_stray [c]), placeOf, hline, Except.error.injEq,
      ReadError.encoding.injEq] at hplace
    exact hne (Nat.add_right_cancel hplace.2)
  · rw [ofBytes_of_breaks hbreaks, placeOf, lookalikes, Utf8.countP_encode hd]

/-- Behind `a→b` with the delimiter `→` the first field is reported in place of the second. -/
theorem arrow_misplaced : ∃ cs rest, Breaks [0x61, 0xE2, 0x86, 0x92, 0x62, 0xFF] cs rest ∧
    Import.ofBytes '→' {} [0x61, 0xE2, 0x86, 0x92, 0x62, 0xFF] = .error (.encoding 1 1) ∧
    placeOf '→' cs = .encoding 1 2 := by
  have hdecode : Utf8.decode [0x61, 0xE2, 0x86, 0x92, 0x62, 0xFF] = (['a', '→', 'b'], [0xFF]) :=
    Utf8.decode_eq_iff.mpr ⟨by decide, by decide⟩
  have hinvalid :
      ¬ ([0x61, 0xE2, 0x86, 0x92, 0x62, 0xFF] : List UInt8).toByteArray.IsValidUTF8 := by
    rw [Utf8.isValidUTF8_iff]
    rintro ⟨cs, heq⟩
    have hall := Utf8.decode_eq_iff.mpr ⟨heq.trans (List.append_nil _).symm, rfl⟩
    rw [hdecode] at hall
    exact absurd (Prod.mk.inj hall).2 (List.cons_ne_nil _ _)
  obtain ⟨cs, rest, hbreaks, -⟩ := (ofBytes_place_iff '→').1 {} _ hinvalid
  have hread := Utf8.decode_eq_iff.mpr ⟨hbreaks.eq, Utf8.next?_eq_none_iff.mpr hbreaks.stuck⟩
  obtain ⟨rfl, rfl⟩ := Prod.mk.inj (hdecode.symm.trans hread)
  exact ⟨_, _, hbreaks, ofBytes_of_breaks hbreaks _ _, rfl⟩

end Csv

end Spreadsheet
