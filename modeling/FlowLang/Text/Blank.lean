import FlowLang.Text.RangeTable

/-!
# Blanks

Blanks are the 25 characters of the Unicode property White_Space.

* `isBlank` : the class.
* `isGap` : the two blanks that stand between words of one line.
* `trim` : a text without the blanks at its two ends.
-/

namespace FlowLang

namespace Text

/-- The code points of the property White_Space. -/
def blankRanges : RangeTable :=
  [(0x9, 0xd), (0x20, 0x20), (0x85, 0x85), (0xa0, 0xa0), (0x1680, 0x1680), (0x2000, 0x200a),
   (0x2028, 0x2029), (0x202f, 0x202f), (0x205f, 0x205f), (0x3000, 0x3000)]

/-- A blank character, of whatever width or effect on lines. -/
def isBlank (c : Char) : Bool := blankRanges.has c

/-- A space or a tab. -/
def isGap (c : Char) : Bool := c == ' ' || c == '\t'

/-- The characters without the blanks before the first and after the last other character. -/
def trimChars (cs : List Char) : List Char :=
  ((cs.dropWhile isBlank).reverse.dropWhile isBlank).reverse

/-- The text without blanks at its ends. -/
def trim (s : String) : String := String.ofList (trimChars s.toList)

end Text

end FlowLang
