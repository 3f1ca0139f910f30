/-! # Blank characters

The characters with the Unicode property of white space, and texts without them
at either end.
-/

namespace BoardMill.Text

/-- The characters with the property of white space: the controls of layout, the
spaces, and the separators of lines and paragraphs. -/
def isBlank (c : Char) : Bool :=
  let n := c.toNat
  (0x09 ≤ n && n ≤ 0x0D) || n == 0x20 || n == 0x85 || n == 0xA0 || n == 0x1680 ||
    (0x2000 ≤ n && n ≤ 0x200A) || n == 0x2028 || n == 0x2029 || n == 0x202F || n == 0x205F ||
    n == 0x3000

/-- The text without the blanks in front. -/
def trimLeft (text : List Char) : List Char := text.dropWhile isBlank

/-- The text without the blanks at its end. -/
def trimRight (text : List Char) : List Char := (text.reverse.dropWhile isBlank).reverse

/-- The text without the blanks at both ends. -/
def trim (text : List Char) : List Char := trimRight (trimLeft text)

end BoardMill.Text
