/-!
# Blank characters

The characters with Unicode's `White_Space` property, and the cutting of blanks from the ends of a
text.

* `isBlank`: the property, on all of Unicode.
* `trimEnd`, `trim`: a text without the blanks at its end, or at both of its ends.
-/

namespace BytecodeLowering.Text

/-- Whether a character has the `White_Space` property. -/
def isBlank (c : Char) : Bool :=
  let n := c.toNat
  (0x9 ≤ n && n ≤ 0xd) || n == 0x20 || n == 0x85 || n == 0xa0 || n == 0x1680 ||
    (0x2000 ≤ n && n ≤ 0x200a) || n == 0x2028 || n == 0x2029 || n == 0x202f || n == 0x205f ||
    n == 0x3000

/-- The text without the blanks at its end. -/
def trimEnd (cs : List Char) : List Char :=
  (cs.reverse.dropWhile isBlank).reverse

/-- The text without the blanks at its start and at its end. -/
def trim (cs : List Char) : List Char :=
  trimEnd (cs.dropWhile isBlank)

end BytecodeLowering.Text
