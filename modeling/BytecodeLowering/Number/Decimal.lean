import BytecodeLowering.Number.Shortest

/-!
# Decimal text of binary values

The two ways in which a floating-point value is written.

* `plain`: always positional, a whole number without a point.
* `exact`: a whole number with one zero behind the point, and an exponent where the value is
  smaller than `1e-4` or at least `1e16`.

Both write the shortest digits that read back as the value.
-/

namespace BytecodeLowering.Number

/-- `n` zeros. -/
def zeros (n : Nat) : String :=
  String.ofList (List.replicate n '0')

/-- The number `d * 10 ^ s` written positionally, with `whole` behind the digits of a whole
number. -/
def positional (d : Nat) (s : Int) (whole : String) : String :=
  let ds := Nat.toDigits 10 d
  if 0 ≤ s then String.ofList ds ++ zeros s.toNat ++ whole
  else
    let places := (-s).toNat
    if places < ds.length then
      String.ofList (ds.take (ds.length - places)) ++ "." ++
        String.ofList (ds.drop (ds.length - places))
    else "0." ++ zeros (places - ds.length) ++ String.ofList ds

/-- The number `d * 10 ^ s` written with one digit before the point and an exponent. -/
def scientific (d : Nat) (s : Int) : String :=
  let ds := Nat.toDigits 10 d
  let rest := ds.drop 1
  let exponent := s + rest.length
  String.ofList (ds.take 1) ++ (if rest.isEmpty then "" else "." ++ String.ofList rest) ++ "e" ++
    toString exponent

/-- The sign in front of a value. -/
def sign (negative : Bool) : String :=
  if negative then "-" else ""

/-- The text of a value without an exponent; a whole number has no point. -/
def plain : Parts → String
  | .nan => "NaN"
  | .infinity negative => sign negative ++ "inf"
  | .finite negative m q lowest =>
    sign negative ++
      if m = 0 then "0"
      else
        let (d, s) := shortest m q lowest
        positional d s ""

/-- The text of a value that shows that it is not an integer; very small and very large values have
an exponent. -/
def exact : Parts → String
  | .nan => "NaN"
  | .infinity negative => sign negative ++ "inf"
  | .finite negative m q lowest =>
    sign negative ++
      if m = 0 then "0.0"
      else
        let (d, s) := shortest m q lowest
        let magnitude := s + digitCount d
        if -4 < magnitude ∧ magnitude ≤ 16 then positional d s ".0" else scientific d s

end BytecodeLowering.Number
