/-!
# White space

`isBlank` is white space in the sense of the Unicode standard, together with the four information
separators. `trimBlanks` removes it from the end of a line.
-/

namespace LateConst

/-- The code points of white space as ranges, both ends included. -/
def blankRanges : List (Nat × Nat) :=
  [(0x09, 0x0D), (0x1C, 0x20), (0x85, 0x85), (0xA0, 0xA0), (0x1680, 0x1680), (0x2000, 0x200A),
    (0x2028, 0x2029), (0x202F, 0x202F), (0x205F, 0x205F), (0x3000, 0x3000)]

def isBlank (c : Char) : Bool :=
  blankRanges.any fun (low, high) ↦ low ≤ c.toNat && c.toNat ≤ high

/-- A line without the white space at its end. -/
def trimBlanks (line : List Char) : List Char :=
  (line.reverse.dropWhile isBlank).reverse

end LateConst
