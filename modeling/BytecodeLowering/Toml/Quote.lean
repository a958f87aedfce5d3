import BytecodeLowering.Text.Hex

/-!
# Writing TOML texts

* `quote`: a text in the plainest of the four kinds of quotes that it can stand in.
-/

namespace BytecodeLowering.Toml

/-- The greatest number of the given character in a row. -/
def longestRun (c : Char) : Nat → List Char → Nat
  | run, [] => run
  | run, x :: xs => if x = c then longestRun c (run + 1) xs else max run (longestRun c 0 xs)

/-- Whether a character can only be written as an escape. -/
def needsEscape (c : Char) : Bool :=
  (c.toNat < 0x20 && c ≠ '\t' && c ≠ '\n') || c.toNat = 0x7f

/-- A character between double quotes. -/
def escape (c : Char) : String :=
  if c = '\x08' then "\\b"
  else if c = '\t' then "\\t"
  else if c = '\n' then "\\n"
  else if c = '\x0c' then "\\f"
  else if c = '\r' then "\\r"
  else if c = '"' then "\\\""
  else if c = '\\' then "\\\\"
  else if needsEscape c then "\\u" ++ (Text.Hex.padded 4 c.toNat).toUpper
  else String.singleton c

/-- Characters between three double quotes: line ends stand as they are, and so do up to two quotes
in a row. -/
def escapeLines : Nat → List Char → String
  | _, [] => ""
  | run, c :: cs =>
    if c = '\n' then "\n" ++ escapeLines 0 cs
    else if c = '"' ∧ run < 2 then "\"" ++ escapeLines (run + 1) cs
    else escape c ++ escapeLines 0 cs

/-- Three double quotes. -/
def threeDouble : String := "\"\"\""

/-- Three single quotes. -/
def threeSingle : String := "\x27\x27\x27"

/-- The line end in front of a text of several lines. -/
def lead (lines : Bool) : String :=
  if lines then "\n" else ""

/-- A text in quotes. Double quotes come first, if nothing in it needs an escape there; then single
quotes, then three double and three single ones; and double quotes with escapes are left for the
rest. -/
def quote (s : String) : String :=
  let cs := s.toList
  let lines := cs.contains '\n'
  let raw := cs.any needsEscape
  let escapes := raw || cs.contains '\\'
  let doubles := longestRun '"' 0 cs
  let singles := longestRun '\'' 0 cs
  if !escapes && doubles = 0 && !lines then "\"" ++ String.join (cs.map escape) ++ "\""
  else if !raw && singles = 0 && !lines then "\x27" ++ s ++ "\x27"
  else if !escapes && doubles ≤ 2 then threeDouble ++ lead lines ++ escapeLines 0 cs ++ threeDouble
  else if !raw && singles ≤ 2 then threeSingle ++ lead lines ++ s ++ threeSingle
  else if lines then threeDouble ++ lead lines ++ escapeLines 0 cs ++ threeDouble
  else "\"" ++ String.join (cs.map escape) ++ "\""

end BytecodeLowering.Toml
