import BytecodeLowering.Text.Glyph
import BytecodeLowering.Text.Hex

/-!
# Quoted text

A text between double quotes, with the characters escaped that could not stand there.

* `escape`: how one character is written.
* `quoted`: a whole text with its quotes.
-/

namespace BytecodeLowering.Text

/-- How a character is written between double quotes: the quote and the backslash behind a
backslash, the common controls by a letter, any other character without a glyph by its code point,
and every other character as itself. -/
def escape (c : Char) : String :=
  if c = '\x00' then "\\0"
  else if c = '\t' then "\\t"
  else if c = '\n' then "\\n"
  else if c = '\r' then "\\r"
  else if c = '\\' then "\\\\"
  else if c = '"' then "\\\""
  else if hasGlyph c then String.singleton c
  else "\\u\x7b" ++ Hex.digits c.toNat ++ "\x7d"

/-- A text between double quotes, its characters escaped. -/
def quoted (s : String) : String :=
  "\"" ++ String.join (s.toList.map escape) ++ "\""

end BytecodeLowering.Text
