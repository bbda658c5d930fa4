import MonkeyLang.Text.Ranges

/-!
Blank characters: the space separators (category Zs) and the characters of bidirectional class
WS, B or S. The zero width space and the byte order mark are not among them.
-/

set_option autoImplicit false

namespace MonkeyLang.Text

def blankRanges : Ranges :=
  [(0x9, 0xd), (0x1c, 0x20), (0x85, 0x85), (0xa0, 0xa0), (0x1680, 0x1680), (0x2000, 0x200a),
   (0x2028, 0x2029), (0x202f, 0x202f), (0x205f, 0x205f), (0x3000, 0x3000)]

def isBlank (c : Char) : Bool :=
  blankRanges.contains c.toNat

/-- The text without the blanks at its two ends. -/
def trimBlanks (text : String) : String :=
  .ofList (((text.toList.dropWhile isBlank).reverse.dropWhile isBlank).reverse)

end MonkeyLang.Text
