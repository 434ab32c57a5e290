/-
  Blank characters and trimming.

  A character is blank if it has the Unicode property White_Space. That set has 25
  members, the ideographic space U+3000 among them; zero-width characters
  (U+200B, U+FEFF) and the separators U+001C to U+001F are not in it.
-/

namespace CramSchool.Text

/-- The property White_Space. -/
def isBlank (c : Char) : Bool :=
  let n := c.toNat
  (0x9 ≤ n && n ≤ 0xD) || n == 0x20 || n == 0x85 || n == 0xA0 || n == 0x1680 ||
    (0x2000 ≤ n && n ≤ 0x200A) || n == 0x2028 || n == 0x2029 || n == 0x202F || n == 0x205F ||
    n == 0x3000

/-- The text without the blanks at its two ends. -/
def trim (text : List Char) : List Char :=
  ((text.dropWhile isBlank).reverse.dropWhile isBlank).reverse

end CramSchool.Text
