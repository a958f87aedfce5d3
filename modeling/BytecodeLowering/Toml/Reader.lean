import BytecodeLowering.Text.Hex
import BytecodeLowering.Toml.Basic

/-!
# Reading TOML

* `ofText?`: the tables of a text, if it is TOML and nests less than `depthLimit`.
* `Reader.key?`, `Reader.text?`, `Reader.moment?`, `Reader.value?`: the parts of a text.
-/

namespace BytecodeLowering.Toml

/-- Keys have fewer parts than this, and values lie in fewer arrays and inline tables. -/
def depthLimit : Nat := 80

namespace Reader

/-- The blanks within a line. -/
def isBlank (c : Char) : Bool :=
  c = ' ' || c = '\t'

/-- The text behind the blanks at its start. -/
def skipBlanks (cs : List Char) : List Char :=
  cs.dropWhile isBlank

/-- Whether a character must not stand in a comment or between single quotes. -/
def isControl (c : Char) : Bool :=
  (c.toNat < 0x20 && c ≠ '\t') || c.toNat = 0x7f

/-- The text behind a line end, if there is one. -/
def newline? : List Char → Option (List Char)
  | '\n' :: rest => some rest
  | '\r' :: '\n' :: rest => some rest
  | _ => none

/-- The text at the next line end: blanks and a comment may stand in front of it. -/
def lineRest? (cs : List Char) : Option (List Char) :=
  match skipBlanks cs with
  | '#' :: rest =>
    let behind := rest.dropWhile fun c => !isControl c
    if behind.isEmpty || (newline? behind).isSome then some behind else none
  | rest => if rest.isEmpty || (newline? rest).isSome then some rest else none

/-- The text behind blanks, line ends and comments. -/
def skipLines (fuel : Nat) (cs : List Char) : List Char :=
  match fuel with
  | 0 => cs
  | fuel + 1 =>
    match lineRest? cs with
    | some rest =>
      match newline? rest with
      | some behind => skipLines fuel behind
      | none => rest
    | none => skipBlanks cs

/-- A code point of the given number of hexadecimal digits. -/
def codePoint? (width : Nat) (cs : List Char) : Option (Char × List Char) := do
  let ds := cs.take width
  if ds.length ≠ width then none
  let n ← ds.foldlM (fun n d => (Text.Hex.value? d).map fun v => 16 * n + v) 0
  if n.isValidChar then some (Char.ofNat n, cs.drop width) else none

/-- The character that stands behind a backslash. -/
def escaped? : List Char → Option (Char × List Char)
  | 'b' :: rest => some ('\x08', rest)
  | 't' :: rest => some ('\t', rest)
  | 'n' :: rest => some ('\n', rest)
  | 'f' :: rest => some ('\x0c', rest)
  | 'r' :: rest => some ('\r', rest)
  | '"' :: rest => some ('"', rest)
  | '\\' :: rest => some ('\\', rest)
  | 'u' :: rest => codePoint? 4 rest
  | 'U' :: rest => codePoint? 8 rest
  | _ => none

/-- The rest of a text on one line up to the given quote; between double quotes a backslash starts
an escape. The characters so far come in reverse. -/
def line? (quote : Char) (fuel : Nat) (soFar : List Char) (cs : List Char) :
    Option (String × List Char) :=
  match fuel, cs with
  | 0, _ | _, [] => none
  | fuel + 1, c :: rest =>
    if c = quote then some (String.ofList soFar.reverse, rest)
    else if c = '\\' ∧ quote = '"' then
      match escaped? rest with
      | some (x, behind) => line? quote fuel (x :: soFar) behind
      | none => none
    else if isControl c then none
    else line? quote fuel (c :: soFar) rest

/-- The text behind a backslash at the end of a line, if that is one: the blanks and line ends up to
the next other character are left out. -/
def continued? (cs : List Char) : Option (List Char) :=
  (newline? (skipBlanks cs)).map fun rest =>
    rest.dropWhile fun c => isBlank c || c = '\n' || c = '\r'

/-- The rest of a text of several lines up to three of the given quotes; up to two more of them
belong to the text. -/
def lines? (quote : Char) (fuel : Nat) (soFar : List Char) (cs : List Char) :
    Option (String × List Char) :=
  match fuel, cs with
  | 0, _ | _, [] => none
  | fuel + 1, c :: rest =>
    let quotes := (cs.takeWhile (· = quote)).length
    if 3 ≤ quotes then
      if 5 < quotes then none
      else
        some (String.ofList (List.replicate (quotes - 3) quote ++ soFar).reverse, cs.drop quotes)
    else if c = '\\' ∧ quote = '"' then
      match continued? rest, escaped? rest with
      | some behind, _ => lines? quote fuel soFar behind
      | none, some (x, behind) => lines? quote fuel (x :: soFar) behind
      | none, none => none
    else
      match newline? cs with
      | some behind => lines? quote fuel ('\n' :: soFar) behind
      | none => if isControl c then none else lines? quote fuel (c :: soFar) rest

/-- A text at its opening quote. A line end right behind three quotes is left out. -/
def text? (cs : List Char) : Option (String × List Char) :=
  match cs with
  | '"' :: '"' :: '"' :: rest => lines? '"' cs.length [] ((newline? rest).getD rest)
  | '\x27' :: '\x27' :: '\x27' :: rest => lines? '\x27' cs.length [] ((newline? rest).getD rest)
  | '"' :: rest => line? '"' cs.length [] rest
  | '\x27' :: rest => line? '\x27' cs.length [] rest
  | _ => none

/-- The characters of keys without quotes. -/
def isBare (c : Char) : Bool :=
  c.isAlphanum || c = '_' || c = '-'

/-- A part of a key. -/
def simpleKey? (cs : List Char) : Option (String × List Char) :=
  match cs with
  | '"' :: rest => line? '"' cs.length [] rest
  | '\x27' :: rest => line? '\x27' cs.length [] rest
  | _ =>
    let word := cs.takeWhile isBare
    if word.isEmpty then none else some (String.ofList word, cs.dropWhile isBare)

/-- A key of at most the given number of parts, which stand between dots. -/
def keyOf? (room : Nat) (cs : List Char) : Option (List String × List Char) :=
  match room with
  | 0 => none
  | room + 1 => do
    let (part, rest) ← simpleKey? (skipBlanks cs)
    match skipBlanks rest with
    | '.' :: rest =>
      let (parts, rest) ← keyOf? room rest
      return (part :: parts, rest)
    | rest => return ([part], rest)

/-- A key. -/
def key? (cs : List Char) : Option (List String × List Char) :=
  keyOf? (depthLimit - 1) cs

/-- The digits of a number, without the underscores, each of which has to stand between two
digits. -/
def digits? (isDigit : Char → Bool) : List Char → Option (List Char)
  | [] => none
  | [c] => if isDigit c then some [c] else none
  | c :: '_' :: rest => if isDigit c then (digits? isDigit rest).map (c :: ·) else none
  | c :: rest => if isDigit c then (digits? isDigit rest).map (c :: ·) else none

/-- The number that digits of a base stand for. -/
def ofDigits (base : Nat) (ds : List Char) : Nat :=
  ds.foldl (fun n d => base * n + (Text.Hex.value? d).getD 0) 0

/-- Digits without a leading zero. -/
def decimal? (cs : List Char) : Option Nat := do
  let ds ← digits? Char.isDigit cs
  if ds.length ≠ 1 ∧ ds.head? = some '0' then none else some (ofDigits 10 ds)

/-- The sign of a number, and its rest. -/
def signed (cs : List Char) : Bool × List Char :=
  match cs with
  | '-' :: rest => (true, rest)
  | '+' :: rest => (false, rest)
  | _ => (false, cs)

/-- An integer of 64 bits. -/
def integer? (cs : List Char) : Option Int := do
  let n : Int ←
    match cs with
    | '0' :: 'x' :: rest =>
      (digits? (fun c => (Text.Hex.value? c).isSome) rest).map fun ds => (ofDigits 16 ds : Int)
    | '0' :: 'o' :: rest => (digits? (fun c => '0' ≤ c && c ≤ '7') rest).map fun ds => ofDigits 8 ds
    | '0' :: 'b' :: rest => (digits? (fun c => c = '0' || c = '1') rest).map fun ds => ofDigits 2 ds
    | _ =>
      let (negative, rest) := signed cs
      (decimal? rest).map fun n => if negative then -n else n
  if Int64.minValue.toInt ≤ n ∧ n ≤ Int64.maxValue.toInt then some n else none

/-- Whether a text is an exponent. -/
def isExponent (cs : List Char) : Bool :=
  (digits? Char.isDigit (signed cs).2).isSome

/-- Whether a text is a floating-point number. -/
def isFloat (cs : List Char) : Bool :=
  let (_, cs) := signed cs
  if cs = ['i', 'n', 'f'] || cs = ['n', 'a', 'n'] then true
  else
    let isMark (c : Char) : Bool := c = 'e' || c = 'E'
    let (mantissa, exponent) := (cs.takeWhile (!isMark ·), cs.dropWhile (!isMark ·))
    let (whole, fraction) := (mantissa.takeWhile (· ≠ '.'), mantissa.dropWhile (· ≠ '.'))
    (decimal? whole).isSome && !(fraction.isEmpty && exponent.isEmpty) &&
      (fraction.isEmpty || (digits? Char.isDigit fraction.tail).isSome) &&
      (exponent.isEmpty || isExponent exponent.tail)

/-- The text behind a word, if the text starts with it. -/
def word? (word cs : List Char) : Option (List Char) :=
  if word.isPrefixOf cs then some (cs.drop word.length) else none

/-- The value of a word that is not quoted. -/
def wordValue? (cs : List Char) : Option Value :=
  if cs = ['t', 'r', 'u', 'e'] then some (.boolean true)
  else if cs = ['f', 'a', 'l', 's', 'e'] then some (.boolean false)
  else
    match integer? cs with
    | some i => some (.integer i)
    | none => if isFloat cs then some (.float (String.ofList cs)) else none

/-- The number of the given count of decimal digits at the start of a text, if it is in the range,
and the text behind it. -/
def field? (width low high : Nat) (cs : List Char) : Option (Nat × List Char) :=
  let ds := cs.take width
  let n := ofDigits 10 ds
  if ds.length = width ∧ ds.all Char.isDigit ∧ low ≤ n ∧ n ≤ high then some (n, cs.drop width)
  else none

/-- The number of days of a month. -/
def daysOf (year month : Nat) : Nat :=
  if month = 2 then
    if year % 4 = 0 ∧ (year % 100 ≠ 0 ∨ year % 400 = 0) then 29 else 28
  else if month = 4 ∨ month = 6 ∨ month = 9 ∨ month = 11 then 30
  else 31

/-- The text behind a date. -/
def date? (cs : List Char) : Option (List Char) := do
  let (year, cs) ← field? 4 0 9999 cs
  let (month, cs) ← field? 2 1 12 (← word? ['-'] cs)
  let (_, cs) ← field? 2 1 (daysOf year month) (← word? ['-'] cs)
  return cs

/-- The text behind an hour and a minute. -/
def minute? (cs : List Char) : Option (List Char) := do
  let (_, cs) ← field? 2 0 23 cs
  let (_, cs) ← field? 2 0 59 (← word? [':'] cs)
  return cs

/-- The text behind a time of day; there may be a leap second. -/
def time? (cs : List Char) : Option (List Char) := do
  let (_, cs) ← field? 2 0 60 (← word? [':'] (← minute? cs))
  match cs with
  | '.' :: rest =>
    if (rest.head?.any Char.isDigit) then return rest.dropWhile Char.isDigit else none
  | _ => return cs

/-- The text behind a zone, if there is one. -/
def zone? (cs : List Char) : Option (List Char) :=
  match cs with
  | 'Z' :: rest | 'z' :: rest => some rest
  | '+' :: rest | '-' :: rest => minute? rest
  | _ => some cs

/-- The text behind a date, a time or both. -/
def moment? (cs : List Char) : Option (List Char) :=
  match date? cs with
  | none => time? cs
  | some rest =>
    match rest with
    | c :: behind =>
      if c = 'T' ∨ c = 't' ∨ c = ' ' then
        match time? behind with
        | some behind => zone? behind
        | none => some rest
      else some rest
    | [] => some rest

/-- Whether a character may stand in a word. -/
def isWord (c : Char) : Bool :=
  isBare c || c = '+' || c = '.'

mutual

/-- A value, which may lie on top of as many arrays and inline tables as there is room for. -/
def value? (fuel room : Nat) (cs : List Char) : Option (Value × List Char) :=
  match fuel with
  | 0 => none
  | fuel + 1 =>
    match room, cs with
    | 0, '[' :: _ | 0, '\x7b' :: _ => none
    | room + 1, '[' :: rest => items? fuel room rest
    | room + 1, '\x7b' :: rest =>
      match skipBlanks rest with
      | '\x7d' :: rest => some (.table .closed [], rest)
      | rest => members? fuel room [] rest
    | _, '"' :: _ | _, '\x27' :: _ => (text? cs).map fun (s, rest) => (.text s, rest)
    | _, _ =>
      -- Dates come before numbers, which start with digits as well.
      match moment? cs with
      | some rest => some (.moment (String.ofList (cs.take (cs.length - rest.length))), rest)
      | none => (wordValue? (cs.takeWhile isWord)).map fun v => (v, cs.dropWhile isWord)

/-- The rest of an array. -/
def items? (fuel room : Nat) (cs : List Char) : Option (Value × List Char) :=
  match fuel with
  | 0 => none
  | fuel + 1 =>
    match skipLines cs.length cs with
    | ']' :: rest => some (.array [], rest)
    | cs => do
      let (v, rest) ← value? fuel room cs
      match skipLines rest.length rest with
      | ',' :: rest =>
        match ← items? fuel room rest with
        | (.array vs, rest) => return (.array (v :: vs), rest)
        | _ => none
      | ']' :: rest => return (.array [v], rest)
      | _ => none

/-- The rest of an inline table. -/
def members? (fuel room : Nat) (soFar : Members) (cs : List Char) : Option (Value × List Char) :=
  match fuel with
  | 0 => none
  | fuel + 1 => do
    let (key, rest) ← key? cs
    match rest with
    | '=' :: rest =>
      let (v, rest) ← value? fuel room (skipBlanks rest)
      -- A key that was given a value in the same table is refused here.
      let soFar ← soFar.define v key
      match skipBlanks rest with
      | ',' :: rest => members? fuel room soFar rest
      | '\x7d' :: rest => return (.table .closed soFar, rest)
      | _ => none
    | _ => none

end

/-- A document under construction. -/
structure Draft where
  /-- The tables so far. -/
  root : Members := []
  /-- The table of the last header. -/
  current : List String := []

/-- Reads the header of a table behind its bracket; two brackets make a further table. -/
def header? (d : Draft) (cs : List Char) : Option (Draft × List Char) := do
  let (change, cs, close) :=
    match cs with
    | '[' :: rest => (Members.openElement, rest, [']', ']'])
    | _ => (Members.openTable, cs, [']'])
  let (key, rest) ← key? cs
  return ({ root := ← change key d.root, current := key }, ← word? close rest)

/-- Reads a value under a key. -/
def pair? (d : Draft) (cs : List Char) : Option (Draft × List Char) := do
  let (key, rest) ← key? cs
  match rest with
  | '=' :: rest =>
    let (v, rest) ← value? rest.length (depthLimit - 1) (skipBlanks rest)
    return ({ d with root := ← d.root.change (Members.define v key) d.current }, rest)
  | _ => none

/-- Reads a document line by line. -/
def document? (fuel : Nat) (d : Draft) (cs : List Char) : Option Members :=
  match fuel with
  | 0 => none
  | fuel + 1 =>
    match skipLines cs.length cs with
    | [] => some d.root
    | c :: rest => do
      let (d, rest) ← if c = '[' then header? d rest else pair? d (c :: rest)
      document? fuel d (← lineRest? rest)

end Reader

/-- The tables of a text. A byte-order mark may stand in front. -/
def ofText? (text : String) : Option Members :=
  let cs :=
    match text.toList with
    | '\ufeff' :: rest => rest
    | cs => cs
  Reader.document? (cs.length + 1) {} cs

end BytecodeLowering.Toml
