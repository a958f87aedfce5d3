import BytecodeLowering.Json.Basic

/-!
# Reading JSON text

The strict grammar of JSON: no byte-order mark, no raw control characters in strings, no leading
zeros, nothing but blanks behind the value.

* `Document`: the value of a text, and whether nothing but blanks follows it.
* `Document.ofText`: reads a text. A text that is not JSON still gives the value up to its first
  error, so that a later reader meets the faults of a text in the order of the text.
* `Document.objectOfText?`: the object of a text that is JSON throughout.
-/

namespace BytecodeLowering.Json

/-- A text read as JSON. -/
structure Document where
  /-- The value at the start of the text. -/
  root : Json
  /-- Whether the value is followed by nothing but blanks. -/
  complete : Bool

namespace Reader

/-- The blanks of JSON. -/
def isBlank (c : Char) : Bool :=
  c == ' ' || c == '\n' || c == '\t' || c == '\r'

/-- The text behind the blanks at its start. -/
def skipBlanks (cs : List Char) : List Char :=
  cs.dropWhile isBlank

/-- Four hexadecimal digits at the start of a text. -/
def hex4? : List Char → Option (Nat × List Char)
  | a :: b :: c :: d :: rest => do
    let a ← Text.Hex.value? a
    let b ← Text.Hex.value? b
    let c ← Text.Hex.value? c
    let d ← Text.Hex.value? d
    return (4096 * a + 256 * b + 16 * c + d, rest)
  | _ => none

/-- The character that a letter behind a backslash stands for. -/
def escaped? (c : Char) : Option Char :=
  if c = '"' ∨ c = '\\' ∨ c = '/' then some c
  else if c = 'b' then some '\x08'
  else if c = 'f' then some '\x0c'
  else if c = 'n' then some '\n'
  else if c = 'r' then some '\r'
  else if c = 't' then some '\t'
  else none

/-- The code points that a unit of an escape gives, and the text behind it: a leading surrogate
needs a trailing one in the next escape, and a unit that is left alone gives none. -/
def codePoint (unit : Nat) (rest : List Char) : Option Char × List Char :=
  if 0xd800 ≤ unit ∧ unit ≤ 0xdbff then
    match rest with
    | '\\' :: 'u' :: more =>
      match hex4? more with
      | some (low, behind) =>
        if 0xdc00 ≤ low ∧ low ≤ 0xdfff then
          (some (Char.ofNat (0x10000 + (unit - 0xd800) * 0x400 + (low - 0xdc00))), behind)
        else (none, rest)
      | none => (none, rest)
    | _ => (none, rest)
  else if 0xdc00 ≤ unit ∧ unit ≤ 0xdfff then (none, rest)
  else (some (Char.ofNat unit), rest)

/-- Reads the rest of a string behind its opening quote: the string, if it is text, and the text
behind the closing quote. `none` if the text stops being a string. The characters so far come in
reverse, and `isText` tells whether they were all of them. -/
def string? (fuel : Nat) (soFar : List Char) (isText : Bool) (cs : List Char) :
    Option (Option String × List Char) :=
  match fuel, cs with
  | 0, _ => none
  | _, [] => none
  | fuel + 1, c :: rest =>
    if c = '"' then some (if isText then some (String.ofList soFar.reverse) else none, rest)
    else if c.toNat < 0x20 then none
    else if c ≠ '\\' then string? fuel (c :: soFar) isText rest
    else
      match rest with
      | [] => none
      | 'u' :: more =>
        match hex4? more with
        | none => none
        | some (unit, behind) =>
          match codePoint unit behind with
          | (some x, behind) => string? fuel (x :: soFar) isText behind
          | (none, behind) => string? fuel soFar false behind
      | e :: more =>
        match escaped? e with
        | none => none
        | some x => string? fuel (x :: soFar) isText more

/-- The digits at the start of a text and the text behind them. -/
def digits (cs : List Char) : List Char × List Char :=
  (cs.takeWhile Char.isDigit, cs.dropWhile Char.isDigit)

/-- The fraction at the start of a text, empty if there is none; `none` if its digits are
missing. -/
def fraction? (cs : List Char) : Option (List Char × List Char) :=
  match cs with
  | '.' :: rest =>
    let (ds, behind) := digits rest
    if ds.isEmpty then none else some (ds, behind)
  | _ => some ([], cs)

/-- The exponent at the start of a text; `none` if its digits are missing. -/
def exponent? (cs : List Char) : Option (Option Int × List Char) :=
  match cs with
  | c :: rest =>
    if c = 'e' ∨ c = 'E' then
      let (negative, rest) :=
        match rest with
        | '+' :: more => (false, more)
        | '-' :: more => (true, more)
        | _ => (false, rest)
      let (ds, behind) := digits rest
      if ds.isEmpty then none
      else
        let e : Int := Numeral.ofDigits ds
        some (some (if negative then -e else e), behind)
    else some (none, cs)
  | [] => some (none, [])

/-- The number at the start of a text. -/
def number? (cs : List Char) : Option (Numeral × List Char) := do
  let (negative, cs) :=
    match cs with
    | '-' :: rest => (true, rest)
    | _ => (false, cs)
  let (whole, cs) := digits cs
  -- A leading zero stands alone.
  if whole.isEmpty || (whole.head? == some '0' && whole.length != 1) then none
  else
    let (fraction, cs) ← fraction? cs
    let (exponent, cs) ← exponent? cs
    return (⟨negative, whole, fraction, exponent⟩, cs)

/-- The text behind a word, if the text starts with it. -/
def word? : List Char → List Char → Option (List Char)
  | [], cs => some cs
  | w :: ws, c :: cs => if w = c then word? ws cs else none
  | _ :: _, [] => none

/-- The value of a word, or a fault if the text does not go on with it. -/
def literal (value : Json) (word : List Char) (cs : List Char) : Json × Option (List Char) :=
  match word? word cs with
  | some rest => (value, some rest)
  | none => (.fault, none)

mutual

/-- Reads the value at the start of a text, and gives the text behind it; there is none behind a
value that ends in a fault. -/
def value (fuel : Nat) (cs : List Char) : Json × Option (List Char) :=
  match fuel, skipBlanks cs with
  | 0, _ => (.fault, none)
  | _, [] => (.fault, none)
  | fuel + 1, c :: rest =>
    if c = '[' then
      let (items, behind) := items fuel true rest
      (.array items, behind)
    else if c = '\x7b' then
      let (members, behind) := members fuel true rest
      (.object members, behind)
    else if c = '"' then
      match string? fuel [] true rest with
      | some (s, behind) => (.string s, some behind)
      | none => (.fault, none)
    else if c = 'n' then literal .null ['u', 'l', 'l'] rest
    else if c = 't' then literal (.bool true) ['r', 'u', 'e'] rest
    else if c = 'f' then literal (.bool false) ['a', 'l', 's', 'e'] rest
    else
      match number? (c :: rest) with
      | some (n, behind) => (.number n, some behind)
      | none => (.fault, none)

/-- Reads the rest of an array; `first` tells that no item stands before it. -/
def items (fuel : Nat) (first : Bool) (cs : List Char) : List Json × Option (List Char) :=
  match fuel, skipBlanks cs with
  | 0, _ => ([.fault], none)
  | _, [] => ([.fault], none)
  | fuel + 1, c :: rest =>
    if c = ']' then ([], some rest)
    else if first || c = ',' then
      match value fuel (if first then c :: rest else rest) with
      | (j, none) => ([j], none)
      | (j, some behind) =>
        let (js, behind) := items fuel false behind
        (j :: js, behind)
    else ([.fault], none)

/-- Reads the rest of an object; `first` tells that no member stands before it. -/
def members (fuel : Nat) (first : Bool) (cs : List Char) :
    List (Option String × Json) × Option (List Char) :=
  match fuel, skipBlanks cs with
  | 0, _ => ([(none, .fault)], none)
  | _, [] => ([(none, .fault)], none)
  | fuel + 1, c :: rest =>
    if c = '\x7d' then ([], some rest)
    else if first || c = ',' then
      match skipBlanks (if first then c :: rest else rest) with
      | '"' :: body =>
        match string? fuel [] true body with
        | none => ([(none, .fault)], none)
        | some (key, behind) =>
          match skipBlanks behind with
          | ':' :: behind =>
            match value fuel behind with
            | (j, none) => ([(key, j)], none)
            | (j, some behind) =>
              let (ms, behind) := members fuel false behind
              ((key, j) :: ms, behind)
          | _ => ([(key, .fault)], none)
      | _ => ([(none, .fault)], none)
    else ([(none, .fault)], none)

end

end Reader

/-- Reads a text as JSON. -/
def Document.ofText (text : String) : Document :=
  let cs := text.toList
  -- Each character is met by at most two calls, one for a container and one for the value in it.
  match Reader.value (2 * cs.length + 2) cs with
  | (j, some rest) => ⟨j, (Reader.skipBlanks rest).isEmpty⟩
  | (j, none) => ⟨j, false⟩

/-- The object that makes up a text. The text has to be JSON throughout, and the keys of the object
have to be text. -/
def Document.objectOfText? (text : String) : Option Json :=
  match ofText text with
  | ⟨.object ms, true⟩ =>
    if ms.all fun m => m.1.isSome && m.2.wellFormed then some (.object ms) else none
  | _ => none

end BytecodeLowering.Json
