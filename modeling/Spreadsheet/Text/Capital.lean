/-! # Capital letters of names

The names of functions are written in capital English letters and are found whatever the case they
are given in. `capitals` is what upper case makes of a character as far as it ends in English
letters: besides the English small letters themselves these are the dotless i, the long s, the
sharp s and the ligatures that are written out. Any other character stays: it has no capital among
the English letters, so no name contains its capital. -/

namespace Spreadsheet.Text

/-- The capital letters of a character. -/
def capitals (c : Char) : List Char :=
  if 'a' ≤ c && c ≤ 'z' then [Char.ofNat (c.toNat - 32)]
  else
    match c with
    | 'ß' => ['S', 'S']
    | 'ı' => ['I']
    | 'ſ' => ['S']
    | 'ﬀ' => ['F', 'F']
    | 'ﬁ' => ['F', 'I']
    | 'ﬂ' => ['F', 'L']
    | 'ﬃ' => ['F', 'F', 'I']
    | 'ﬄ' => ['F', 'F', 'L']
    | 'ﬅ' => ['S', 'T']
    | 'ﬆ' => ['S', 'T']
    | _ => [c]

/-- A name in capital letters. -/
def capitalize (cs : List Char) : List Char := cs.flatMap capitals

/-- The small English letter of a capital one; any other character stays. -/
def smallLetter (c : Char) : Char :=
  if 'A' ≤ c && c ≤ 'Z' then Char.ofNat (c.toNat + 32) else c

end Spreadsheet.Text
