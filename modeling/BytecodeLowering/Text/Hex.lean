/-!
# Hexadecimal text

Numbers and byte strings in lower-case hexadecimal.

* `digits`: the digits of a number, without leading zeros.
* `padded`: the digits of a number, filled up with zeros to a least width.
* `ofBytes`, `toBytes?`: two digits for each byte, and back.
-/

namespace BytecodeLowering.Text.Hex

/-- The lower-case hexadecimal digits of a number. -/
def digits (n : Nat) : String :=
  String.ofList (Nat.toDigits 16 n)

/-- The hexadecimal digits of a number, with zeros in front up to `width` digits. -/
def padded (width n : Nat) : String :=
  let ds := Nat.toDigits 16 n
  String.ofList (List.replicate (width - ds.length) '0' ++ ds)

/-- The value of one hexadecimal digit of either case. -/
def value? (c : Char) : Option Nat :=
  if '0' ≤ c ∧ c ≤ '9' then some (c.toNat - '0'.toNat)
  else if 'a' ≤ c ∧ c ≤ 'f' then some (c.toNat - 'a'.toNat + 10)
  else if 'A' ≤ c ∧ c ≤ 'F' then some (c.toNat - 'A'.toNat + 10)
  else none

/-- Two digits for each byte, high half first. -/
def ofBytes (bytes : List UInt8) : String :=
  String.ofList (bytes.flatMap fun b =>
    [Nat.digitChar (b.toNat / 16), Nat.digitChar (b.toNat % 16)])

/-- The bytes behind a text of digit pairs, if it is one. -/
def toBytes? : List Char → Option (List UInt8)
  | [] => some []
  | [_] => none
  | h :: l :: rest => do
    let high ← value? h
    let low ← value? l
    let bytes ← toBytes? rest
    return UInt8.ofNat (16 * high + low) :: bytes

end BytecodeLowering.Text.Hex
