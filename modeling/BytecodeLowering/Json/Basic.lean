import BytecodeLowering.Number.Decimal
import BytecodeLowering.Text.Hex

/-!
# JSON values

JSON values as they stand in a text, and their written form.

* `Numeral`: a number as its digits, so that no precision is lost before it is used.
* `Json`: a value. A text that stops being JSON somewhere still has a value, which ends in
  `Json.fault` at that place.
* `Json.wellFormed`: no such place, and `Json.plain`: also every string is text and every number has
  a value.
* `Json.render`: the text of a value.
-/

namespace BytecodeLowering

/-- A JSON number as its digits. -/
structure Numeral where
  /-- Whether a minus sign stands in front. -/
  negative : Bool
  /-- The digits before the point. -/
  whole : List Char
  /-- The digits behind the point, none if there is no point. -/
  fraction : List Char
  /-- The exponent, if one is given. -/
  exponent : Option Int
  deriving DecidableEq, Repr

/-- A JSON value. -/
inductive Json where
  /-- The value `null`. -/
  | null
  /-- A truth value. -/
  | bool (b : Bool)
  /-- A number. -/
  | number (n : Numeral)
  /-- A string; `none` if it has an unpaired surrogate and so is no text. -/
  | string (s : Option String)
  /-- A sequence of values. -/
  | array (items : List Json)
  /-- Values under keys, in the order of the text. -/
  | object (members : List (Option String × Json))
  /-- The place where a text stops being JSON. -/
  | fault
  deriving Repr, Inhabited

namespace Numeral

/-- Whether the number is written without a point and an exponent. -/
def isInteger (n : Numeral) : Bool :=
  n.fraction.isEmpty && n.exponent.isNone

/-- The natural number that a list of decimal digits stands for. -/
def ofDigits (ds : List Char) : Nat :=
  ds.foldl (fun n d => 10 * n + (d.toNat - '0'.toNat)) 0

/-- The value of a number written as an integer; a negative zero is no integer. -/
def toInt? (n : Numeral) : Option Int :=
  if !n.isInteger then none
  else
    let v := ofDigits n.whole
    if n.negative then if v = 0 then none else some (-v) else some v

/-- The numeral of an integer. -/
def ofInt (i : Int) : Numeral :=
  ⟨i < 0, Nat.toDigits 10 i.natAbs, [], none⟩

/-- The first digits whose number fits in 64 bits, starting from a number already read, and the
digits left over. -/
def gather (start : Nat) : List Char → Nat × List Char
  | [] => (start, [])
  | d :: ds =>
    let next := 10 * start + (d.toNat - '0'.toNat)
    if next < UInt64.size then gather next ds else (start, d :: ds)

open Number in
/-- Scales a value by a power of ten, dividing in several steps where the power itself is out of
range; `none` if the result is past the largest number. -/
def scaleDown (x : Double) (k : Nat) : Double :=
  if h : k ≤ 308 then x.div (Double.ofNat (Nat.pow 10 k))
  else if x.isZero then x
  else scaleDown (x.div (Double.ofNat (Nat.pow 10 308))) (k - 308)
termination_by k
decreasing_by omega

open Number in
/-- The value of `significand * 10 ^ power`: the significand is rounded first and then scaled by a
rounded power of ten; `none` if the result is past the largest number. -/
def scale (significand : Nat) (power : Int) : Option Double :=
  let x := Double.ofNat significand
  if power < 0 then some (scaleDown x (-power).toNat)
  else if power ≤ 308 then
    let y := x.mul (Double.ofNat (Nat.pow 10 power.toNat))
    if y.isFinite then some y else none
  else if x.isZero then some x
  else none

open Number in
/-- The 64-bit value of a number. The digits that fit in 64 bits make the significand, and the
others count as powers of ten before the point and not at all behind it. -/
def toDouble? (n : Numeral) : Option Double :=
  let (head, restWhole) := gather 0 n.whole
  let (significand, restFraction) := gather head n.fraction
  let power : Int := restWhole.length - (n.fraction.length - restFraction.length : Nat)
  let limit := Int32.maxValue.toInt
  let value :=
    match n.exponent with
    | none => scale significand power
    | some e =>
      if e < -limit then some (Double.ofNat 0)
      else if limit < e then if significand = 0 then some (Double.ofNat 0) else none
      else scale significand (max (-limit - 1) (min limit (power + e)))
  value.map (Double.withSign n.negative)

/-- The integer behind a number that is written as one and fits in 64 bits. -/
def machineInt? (n : Numeral) : Option Int :=
  n.toInt?.filter fun i => Int64.minValue.toInt ≤ i && i < UInt64.size

open Number in
/-- The 32-bit value of a number; an integer is rounded once, any other number by way of its 64-bit
value. -/
def toSingle? (n : Numeral) : Option Single :=
  match n.machineInt? with
  | some i => some (Single.ofRatio (i < 0) i.natAbs 1)
  | none => n.toDouble?.map Double.toSingle

open Number in
/-- The numeral of a binary value, if it is a number: positional from `1e-5` up to `1e16`, with an
exponent outside of that. -/
def ofParts? : Parts → Option Numeral
  | .finite negative m q lowest =>
    let (d, s) := if m = 0 then (0, 0) else shortest m q lowest
    let ds := Nat.toDigits 10 d
    let point : Int := s + ds.length
    if 0 < point ∧ point ≤ 16 then
      let whole := ds.take point.toNat ++ List.replicate (point.toNat - ds.length) '0'
      let fraction := ds.drop point.toNat
      some ⟨negative, whole, if fraction.isEmpty then ['0'] else fraction, none⟩
    else if -5 < point ∧ point ≤ 0 then
      some ⟨negative, ['0'], List.replicate (-point).toNat '0' ++ ds, none⟩
    else some ⟨negative, ds.take 1, ds.drop 1, some (point - 1)⟩
  | _ => none

/-- The text of a numeral. -/
def render (n : Numeral) : String :=
  (if n.negative then "-" else "") ++ String.ofList n.whole ++
    (if n.fraction.isEmpty then "" else "." ++ String.ofList n.fraction) ++
    match n.exponent with
    | none => ""
    | some e => "e" ++ toString e

end Numeral

namespace Json

mutual

/-- Whether the value has no place where its text stops being JSON. -/
def wellFormed : Json → Bool
  | .array items => wellFormedItems items
  | .object members => wellFormedMembers members
  | .fault => false
  | _ => true

/-- `wellFormed` for each value of a sequence. -/
def wellFormedItems : List Json → Bool
  | [] => true
  | j :: js => j.wellFormed && wellFormedItems js

/-- `wellFormed` for the value of each member. -/
def wellFormedMembers : List (Option String × Json) → Bool
  | [] => true
  | (_, j) :: ms => j.wellFormed && wellFormedMembers ms

end

mutual

/-- Whether the value is well-formed, all its strings and keys are text, all its numbers are in
range, and it nests no deeper than `room` containers. -/
def plain (room : Nat) : Json → Bool
  | .number n => n.machineInt?.isSome || n.toDouble?.isSome
  | .string s => s.isSome
  | .array items =>
    match room with
    | 0 => false
    | room + 1 => plainItems room items
  | .object members =>
    match room with
    | 0 => false
    | room + 1 => plainMembers room members
  | .fault => false
  | _ => true

/-- `plain` for each value of a sequence. -/
def plainItems (room : Nat) : List Json → Bool
  | [] => true
  | j :: js => j.plain room && plainItems room js

/-- `plain` for each member. -/
def plainMembers (room : Nat) : List (Option String × Json) → Bool
  | [] => true
  | (k, j) :: ms => k.isSome && j.plain room && plainMembers room ms

end

/-- The value of a text. -/
def ofString (s : String) : Json :=
  .string (some s)

/-- The value of a natural number. -/
def ofNat (n : Nat) : Json :=
  .number (.ofInt n)

/-- The value of an integer. -/
def ofInt (i : Int) : Json :=
  .number (.ofInt i)

/-- The value of a sequence. -/
def ofList {α : Type} (f : α → Json) (xs : List α) : Json :=
  .array (xs.map f)

/-- The value of something that may be absent. -/
def ofOption {α : Type} (f : α → Json) : Option α → Json
  | none => .null
  | some x => f x

/-- An object with the given members. -/
def record (members : List (String × Json)) : Json :=
  .object (members.map fun (k, v) => (some k, v))

/-- How a character is written in a JSON string. -/
def escape (c : Char) : String :=
  if c = '"' then "\\\""
  else if c = '\\' then "\\\\"
  else if c = '\n' then "\\n"
  else if c = '\r' then "\\r"
  else if c = '\t' then "\\t"
  else if c.toNat < 0x20 then "\\u" ++ Text.Hex.padded 4 c.toNat
  else String.singleton c

/-- A JSON string. -/
def renderString (s : String) : String :=
  "\"" ++ String.join (s.toList.map escape) ++ "\""

/-- A JSON string; one that is no text is written as a surrogate alone, and so is none again. -/
def renderString? (s : Option String) : String :=
  match s with
  | some s => renderString s
  | none => "\"\\ud800\""

mutual

/-- The text of a value, without the places where its own text stops being JSON. -/
def render : Json → String
  | .null => "null"
  | .bool b => if b then "true" else "false"
  | .number n => n.render
  | .string s => renderString? s
  | .array items => "[" ++ String.intercalate "," (renderItems items) ++ "]"
  | .object members => "\x7b" ++ String.intercalate "," (renderMembers members) ++ "\x7d"
  | .fault => ""

/-- The texts of the values of a sequence. -/
def renderItems : List Json → List String
  | [] => []
  | j :: js => j.render :: renderItems js

/-- The texts of members. -/
def renderMembers : List (Option String × Json) → List String
  | [] => []
  | (k, j) :: ms => (renderString? k ++ ":" ++ j.render) :: renderMembers ms

end

end Json

end BytecodeLowering
