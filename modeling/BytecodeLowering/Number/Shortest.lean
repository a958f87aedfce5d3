import BytecodeLowering.Number.Binary

/-!
# Shortest decimal digits

The fewest decimal digits that read back as a given binary value, and of those the nearest to it.

* `Interval`: the decimals that read back as a value `m * 2 ^ q`.
* `shortest`: the significand `d` and the power `s` of the shortest decimal `d * 10 ^ s`.

A decimal of `k` digits near the value is one of the two neighbours of the value on the grid of
step `10 ^ s`; the first `k` with a neighbour inside the interval wins, and of two such neighbours
the nearer, the upper one on a tie.
-/

namespace BytecodeLowering.Number

/-- The number of decimal digits of a natural number. -/
def digitCount (n : Nat) : Nat :=
  (Nat.toDigits 10 n).length

/-- A positive value with the interval of the reals that round to it, all over one denominator. -/
structure Interval where
  /-- Numerator of the lower end. -/
  low : Nat
  /-- Numerator of the value. -/
  mid : Nat
  /-- Numerator of the upper end. -/
  high : Nat
  /-- The denominator. -/
  den : Nat
  /-- Whether the ends round to the value too. -/
  closed : Bool
  deriving Repr

namespace Interval

/-- The interval of `m * 2 ^ q`, whose lower half is narrower when the number below has a finer
last place; a tie at an end rounds to the value when `m` is even. -/
def ofValue (m : Nat) (q : Int) (lowest : Bool) : Interval :=
  let unit := q - 2
  let up := if 0 ≤ unit then Nat.pow 2 unit.toNat else 1
  let den := if 0 ≤ unit then 1 else Nat.pow 2 (-unit).toNat
  { low := (4 * m - if lowest then 1 else 2) * up
    mid := 4 * m * up
    high := (4 * m + 2) * up
    den := den
    closed := m % 2 == 0 }

/-- The same interval counted in steps of `10 ^ s`. -/
def inSteps (i : Interval) (s : Int) : Interval :=
  if 0 ≤ s then { i with den := i.den * Nat.pow 10 s.toNat }
  else
    let up := Nat.pow 10 (-s).toNat
    { i with low := i.low * up, mid := i.mid * up, high := i.high * up }

/-- Whether the natural number `d` lies in the interval. -/
def holds (i : Interval) (d : Nat) : Bool :=
  if i.closed then i.low ≤ d * i.den && d * i.den ≤ i.high
  else i.low < d * i.den && d * i.den < i.high

/-- The exponent `e` with `10 ^ (e - 1) ≤ value < 10 ^ e`. -/
def decimalExponent (i : Interval) : Int :=
  if i.den ≤ i.mid then digitCount (i.mid / i.den)
  else 1 - (digitCount ((i.den - 1) / i.mid) : Int)

/-- The neighbour of the value on the grid of natural numbers that lies in the interval, the nearer
one if both do and the upper one on a tie. -/
def neighbour? (i : Interval) : Option Nat :=
  let below := i.mid / i.den
  match i.holds below, i.holds (below + 1) with
  | true, true =>
    some (if i.mid - below * i.den < (below + 1) * i.den - i.mid then below else below + 1)
  | true, false => some below
  | false, true => some (below + 1)
  | false, false => none

end Interval

/-- Drops the zeros at the end of a significand. -/
def dropZeros (d : Nat) (s : Int) : Nat × Int :=
  if h : d ≠ 0 ∧ d % 10 = 0 then dropZeros (d / 10) (s + 1) else (d, s)
termination_by d
decreasing_by omega

/-- The shortest decimal `d * 10 ^ s` that reads back as the positive number `m * 2 ^ q`, given as
`(d, s)`. -/
def shortest (m : Nat) (q : Int) (lowest : Bool) : Nat × Int :=
  let i := Interval.ofValue m q lowest
  let e := i.decimalExponent
  let found := (List.range 17).findSome? fun k =>
    let s := e - (k + 1 : Nat)
    (i.inSteps s).neighbour?.map fun d => (d, s)
  match found with
  | some (d, s) => dropZeros d s
  | none => (m, q)

end BytecodeLowering.Number
