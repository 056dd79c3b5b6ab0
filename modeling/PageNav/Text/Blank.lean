/-!
# Blank characters

The characters that stand between names: those with the White_Space property of Unicode.
-/

namespace PageNav.Text

/-- The blank characters, as ranges of code points with both ends included. -/
def blankRanges : List (Nat × Nat) :=
  [(0x0009, 0x000D), (0x0020, 0x0020), (0x0085, 0x0085), (0x00A0, 0x00A0), (0x1680, 0x1680),
   (0x2000, 0x200A), (0x2028, 0x2029), (0x202F, 0x202F), (0x205F, 0x205F), (0x3000, 0x3000)]

def isBlank (c : Char) : Bool :=
  blankRanges.any fun (first, last) => first ≤ c.toNat && c.toNat ≤ last

/-- Whether the text holds nothing but blanks, or nothing at all. -/
def allBlank (text : String) : Bool :=
  text.toList.all isBlank

end PageNav.Text
