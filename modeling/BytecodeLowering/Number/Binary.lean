/-!
# Binary floating-point values

IEEE 754 values of 32 and of 64 bits, kept as their bits: two values are equal when they agree bit
by bit, also where they are not numbers.

* `Format`: the two field widths of an interchange format.
* `Parts`: what a bit pattern stands for, a number being `m * 2 ^ q`.
* `Format.ofRatio`: the bits of the value nearest to a quotient of naturals, of two equally near
  ones the even one.
* `Single`, `Double`: the two formats in use, with `Double.toSingle`, `Single.toDouble`,
  `Double.mul` and `Double.div`.
-/

namespace BytecodeLowering.Number

/-- A binary interchange format. -/
structure Format where
  /-- The number of stored bits of the significand. -/
  fraction : Nat
  /-- The number of bits of the exponent. -/
  exponent : Nat
  deriving DecidableEq, Repr

namespace Format

/-- The 32-bit format. -/
def single : Format := ⟨23, 8⟩

/-- The 64-bit format. -/
def double : Format := ⟨52, 11⟩

/-- The exponent of the last place of the smallest numbers. -/
def leastExponent (f : Format) : Int :=
  2 - (Nat.pow 2 (f.exponent - 1) : Nat) - f.fraction

/-- The magnitude bits of the infinities. -/
def infinityBits (f : Format) : Nat :=
  (Nat.pow 2 f.exponent - 1) * Nat.pow 2 f.fraction

/-- The sign bit. -/
def signBit (f : Format) : Nat :=
  Nat.pow 2 (f.fraction + f.exponent)

end Format

/-- What a bit pattern stands for. -/
inductive Parts where
  /-- Not a number. -/
  | nan
  /-- An infinity with its sign. -/
  | infinity (negative : Bool)
  /-- The number `m * 2 ^ q` with its sign; `lowest` tells that the number below has a finer last
  place. -/
  | finite (negative : Bool) (m : Nat) (q : Int) (lowest : Bool)
  deriving DecidableEq, Repr

namespace Format

/-- Reads a bit pattern. -/
def parts (f : Format) (bits : Nat) : Parts :=
  let negative := bits / f.signBit % 2 == 1
  let biased := bits / Nat.pow 2 f.fraction % Nat.pow 2 f.exponent
  let stored := bits % Nat.pow 2 f.fraction
  if biased = Nat.pow 2 f.exponent - 1 then
    if stored = 0 then .infinity negative else .nan
  else if biased = 0 then
    .finite negative stored f.leastExponent false
  else
    .finite negative (Nat.pow 2 f.fraction + stored) (f.leastExponent + (biased - 1 : Nat))
      (stored == 0 && biased != 1)

/-- The quotient rounded to the nearest natural number, a half to the even one. -/
def roundEven (num den : Nat) : Nat :=
  let k := num / den
  let r := num % den
  if 2 * r < den then k else if den < 2 * r then k + 1 else k + k % 2

/-- The fraction `num / den` divided by `2 ^ q`, as a fraction. -/
def scaled (num den : Nat) (q : Int) : Nat × Nat :=
  if 0 ≤ q then (num, den * Nat.pow 2 q.toNat) else (num * Nat.pow 2 (-q).toNat, den)

/-- The magnitude bits of the value nearest to `num / den`, of two equally near ones the even one.
The exponent is the one that leaves exactly the format's digits before the point, or the least
exponent if that is larger. A magnitude past the largest number gives infinity. -/
def magnitude (f : Format) (num den : Nat) : Nat :=
  if num = 0 then 0
  else
    let guess : Int := (Nat.log2 num : Int) - Nat.log2 den - f.fraction - 1
    let (n, d) := scaled num den guess
    let fitted := if n / d < Nat.pow 2 (f.fraction + 1) then guess else guess + 1
    let q := max fitted f.leastExponent
    let (n, d) := scaled num den q
    min ((q - f.leastExponent).toNat * Nat.pow 2 f.fraction + roundEven n d) f.infinityBits

/-- The bits of the value nearest to `num / den` with the given sign. -/
def ofRatio (f : Format) (negative : Bool) (num den : Nat) : Nat :=
  (if negative then f.signBit else 0) + f.magnitude num den

end Format

/-- A 32-bit value. -/
structure Single where
  /-- Its bits. -/
  bits : UInt32
  deriving DecidableEq, Repr, Inhabited

/-- A 64-bit value. -/
structure Double where
  /-- Its bits. -/
  bits : UInt64
  deriving DecidableEq, Repr, Inhabited

/-- The fraction `m * 2 ^ q`. -/
def ratio (m : Nat) (q : Int) : Nat × Nat :=
  if 0 ≤ q then (m * Nat.pow 2 q.toNat, 1) else (m, Nat.pow 2 (-q).toNat)

namespace Single

/-- What the value stands for. -/
def parts (x : Single) : Parts :=
  Format.single.parts x.bits.toNat

/-- The value nearest to `num / den`. -/
def ofRatio (negative : Bool) (num den : Nat) : Single :=
  ⟨UInt32.ofNat (Format.single.ofRatio negative num den)⟩

end Single

namespace Double

/-- What the value stands for. -/
def parts (x : Double) : Parts :=
  Format.double.parts x.bits.toNat

/-- The value nearest to `num / den`. -/
def ofRatio (negative : Bool) (num den : Nat) : Double :=
  ⟨UInt64.ofNat (Format.double.ofRatio negative num den)⟩

/-- The value nearest to a natural number. -/
def ofNat (n : Nat) : Double :=
  ofRatio false n 1

/-- The 32-bit value nearest to this one. -/
def toSingle (x : Double) : Single :=
  match x.parts with
  | .nan => ⟨0x7fc00000⟩
  | .infinity negative => ⟨if negative then 0xff800000 else 0x7f800000⟩
  | .finite negative m q _ =>
    let (num, den) := ratio m q
    Single.ofRatio negative num den

/-- The rounded product of two finite values without regard to their signs; other operands give
infinity. -/
def mul (x y : Double) : Double :=
  match x.parts, y.parts with
  | .finite _ m q _, .finite _ n r _ =>
    let (num, den) := ratio (m * n) (q + r)
    ofRatio false num den
  | _, _ => ⟨0x7ff0000000000000⟩

/-- The rounded quotient of a finite value by a number other than zero, without regard to their
signs; other operands give infinity. -/
def div (x y : Double) : Double :=
  match x.parts, y.parts with
  | .finite _ m q _, .finite _ n r _ =>
    let (num, den) := ratio m (q - r)
    ofRatio false num (den * n)
  | _, _ => ⟨0x7ff0000000000000⟩

/-- The value with its sign turned negative if asked. -/
def withSign (negative : Bool) (x : Double) : Double :=
  if negative then ⟨x.bits ||| 0x8000000000000000⟩ else x

/-- Whether the value is zero of either sign. -/
def isZero (x : Double) : Bool :=
  x.bits &&& 0x7fffffffffffffff == 0

/-- Whether the value is a number. -/
def isFinite (x : Double) : Bool :=
  match x.parts with
  | .finite .. => true
  | _ => false

end Double

/-- The 64-bit value equal to this one; each number of 32 bits is one of 64 bits. -/
def Single.toDouble (x : Single) : Double :=
  match x.parts with
  | .nan => ⟨0x7ff8000000000000⟩
  | .infinity negative => ⟨if negative then 0xfff0000000000000 else 0x7ff0000000000000⟩
  | .finite negative m q _ =>
    let (num, den) := ratio m q
    Double.ofRatio negative num den

end BytecodeLowering.Number
