/-!
# Numerals

Whole numbers as they are written in options and settings: decimal digits, and perhaps a plus sign
in front.
-/

namespace MiniPascal.Text.Numeral

/-- The value of a digit. -/
def digitValue (c : Char) : Nat := c.toNat - '0'.toNat

/-- A number in decimal digits. -/
def decimal? (cs : List Char) : Option Nat :=
  if cs.isEmpty || !cs.all Char.isDigit then none
  else some (cs.foldl (fun n c => n * 10 + digitValue c) 0)

/-- The numbers below this bound, the 64th power of two, fit a word of 64 bits. -/
def wordBound : Nat := 1 <<< 64

/-- A number that fits a word: digits, with or without a plus sign. -/
def word? (s : String) : Option Nat :=
  let digits := match s.toList with
    | '+' :: cs => cs
    | cs => cs
  (decimal? digits).filter (· < wordBound)

end MiniPascal.Text.Numeral
