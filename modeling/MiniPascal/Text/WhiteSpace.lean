import MiniPascal.Text.Ranges

/-!
# White space

The characters with the Unicode property White_Space, which has been the same since version 6.3.
The blanks of the language are fewer; these are the ones around a setting.
-/

namespace MiniPascal.Text

/-- The code points with the property. -/
def whiteSpaceRanges : List (Nat × Nat) :=
  [(0x9, 0xD), (0x20, 0x20), (0x85, 0x85), (0xA0, 0xA0), (0x1680, 0x1680), (0x2000, 0x200A),
    (0x2028, 0x2029), (0x202F, 0x202F), (0x205F, 0x205F), (0x3000, 0x3000)]

def isWhiteSpace (c : Char) : Bool := Ranges.contains whiteSpaceRanges c.toNat

/-- A text without the white space around it. -/
def trim (cs : List Char) : List Char :=
  (((cs.dropWhile isWhiteSpace).reverse).dropWhile isWhiteSpace).reverse

example : Ranges.isAscending whiteSpaceRanges ∧ Ranges.count whiteSpaceRanges = 25 := by decide

end MiniPascal.Text
