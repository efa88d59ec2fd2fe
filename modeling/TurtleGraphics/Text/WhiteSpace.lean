/-!
# White Space Around a Text

Parameters lose the white space around them, in the sense of the Unicode
property `White_Space`. This set is larger than the blanks the language itself
skips between commands, and the two differ on the null character, which is a
blank of the language but no white space.

## Main definitions

* `isWhiteSpace`: The characters of the property.
* `trim`: A text without the white space at its two ends.
-/

namespace TurtleGraphics

namespace Text

/-- The characters with the property `White_Space`. -/
def isWhiteSpace (c : Char) : Bool :=
  let n := c.toNat
  (0x09 ≤ n && n ≤ 0x0D) || n == 0x20 || n == 0x85 || n == 0xA0 || n == 0x1680 ||
    (0x2000 ≤ n && n ≤ 0x200A) || n == 0x2028 || n == 0x2029 || n == 0x202F ||
    n == 0x205F || n == 0x3000

/-- A text without the white space at its end. -/
def trimEnd (s : List Char) : List Char := (s.reverse.dropWhile isWhiteSpace).reverse

/-- A text without the white space at its two ends. -/
def trim (s : List Char) : List Char := trimEnd (s.dropWhile isWhiteSpace)

end Text

end TurtleGraphics
