import Spreadsheet.Text.Capital
import Spreadsheet.Text.LetterProperties

/-! # Lower case

Texts are compared without regard to case: `lower` writes a text in small letters, by the full
Unicode mapping. The capital sigma has two small letters; the second one stands at the end of a
word. -/

namespace Spreadsheet.Text

def inRanges (ranges : List (Nat × Nat)) (c : Char) : Bool :=
  ranges.any fun r => r.1 ≤ c.toNat && c.toNat ≤ r.2

/-- Characters with a case. -/
def isCased (c : Char) : Bool := inRanges casedRanges c

/-- Characters that neither are letters of a word nor end it. -/
def isCaseIgnorable (c : Char) : Bool := inRanges caseIgnorableRanges c

/-- The small letters of a character, wherever it stands. -/
def small (c : Char) : List Char :=
  if c.toNat < 0x80 then [smallLetter c]
  else if c = 'İ' then ['i', '\u0307']
  else
    match smallRuns.find? fun r =>
        r.first ≤ c.toNat && c.toNat ≤ r.last && (c.toNat - r.first) % r.stride == 0 with
    | some r => [Char.ofNat (c.toNat + r.offset).toNat]
    | none => [c]

/-- Whether the nearest character that counts is a letter. -/
def meetsLetter (cs : List Char) : Bool := (cs.dropWhile isCaseIgnorable).head?.any isCased

/-- The small letters of the rest of a text, `before` being the text before it, last character
first. -/
def lowerAfter (before : List Char) : List Char → List Char
  | [] => []
  | c :: rest =>
    (if c = 'Σ' then if meetsLetter before && !meetsLetter rest then ['ς'] else ['σ']
      else small c) ++ lowerAfter (c :: before) rest

def lower (cs : List Char) : List Char := lowerAfter [] cs

end Spreadsheet.Text
