/-!
# Byte codecs

Values as bytes: numbers of a fixed width with the lowest byte first, a 64-bit length in front of
every sequence, and a 32-bit index in front of every alternative.

* `Codec`: how the values of a type are written as bytes and read from the start of bytes.
* `Codec.nat`, `Codec.string`, `Codec.list`, `Codec.pair` and the like: codecs of values by their
  parts.
* `Variant`, `Codec.union`: alternatives, numbered by their places in a list.

A value that does not fit, such as a number that is too large for its width, is not written at all.
-/

namespace BytecodeLowering.Machine

/-- A sequence of bytes. -/
abbrev Bytes := List UInt8

/-- How the values of a type are stored. -/
structure Codec (α : Type) where
  /-- The bytes of a value, if it fits. -/
  put : α → Option Bytes
  /-- The value at the start of some bytes, and the bytes behind it. -/
  get : Bytes → Option (α × Bytes)

namespace Codec

variable {α β : Type}

/-- The lowest `width` bytes of a number, the lowest first. -/
def bytesOf : Nat → Nat → Bytes
  | 0, _ => []
  | width + 1, n => UInt8.ofNat (n % 256) :: bytesOf width (n / 256)

/-- The number that the first `width` bytes stand for, the lowest first. -/
def natOf : Nat → Bytes → Option (Nat × Bytes)
  | 0, bs => some (0, bs)
  | _ + 1, [] => none
  | width + 1, b :: bs => do
    let (n, rest) ← natOf width bs
    return (b.toNat + 256 * n, rest)

/-- Numbers of `width` bytes. -/
def nat (width : Nat) : Codec Nat where
  put n := if n < Nat.pow 256 width then some (bytesOf width n) else none
  get := natOf width

/-- Values by way of values of another type, into which they convert without loss. -/
def via (c : Codec β) (form : α → β) (of? : β → Option α) : Codec α where
  put a := c.put (form a)
  get bs := do
    let (b, rest) ← c.get bs
    let a ← of? b
    return (a, rest)

/-- A value, then another one. -/
def pair (c : Codec α) (d : Codec β) : Codec (α × β) where
  put p := do
    let a ← c.put p.1
    let b ← d.put p.2
    return a ++ b
  get bs := do
    let (a, bs) ← c.get bs
    let (b, bs) ← d.get bs
    return ((a, b), bs)

/-- No bytes for the only value. -/
def unit : Codec Unit where
  put _ := some []
  get bs := some ((), bs)

/-- 16-bit words. -/
def uint16 : Codec UInt16 :=
  (nat 2).via UInt16.toNat fun n => some (UInt16.ofNat n)

/-- 32-bit words. -/
def uint32 : Codec UInt32 :=
  (nat 4).via UInt32.toNat fun n => some (UInt32.ofNat n)

/-- 64-bit words. -/
def uint64 : Codec UInt64 :=
  (nat 8).via UInt64.toNat fun n => some (UInt64.ofNat n)

/-- 32-bit integers in two's complement. -/
def int32 : Codec Int32 :=
  uint32.via Int32.toUInt32 fun w => some w.toInt32

/-- 64-bit integers in two's complement. -/
def int64 : Codec Int64 :=
  uint64.via Int64.toUInt64 fun w => some w.toInt64

/-- Truth values, one byte each. -/
def bool : Codec Bool :=
  (nat 1).via Bool.toNat fun
    | 0 => some false
    | 1 => some true
    | _ => none

/-- The bytes of several values, one behind the other. -/
def putAll (c : Codec α) : List α → Option Bytes
  | [] => some []
  | a :: as => do
    let b ← c.put a
    let bs ← putAll c as
    return b ++ bs

/-- The given number of values, one behind the other. -/
def getAll (c : Codec α) : Nat → Bytes → Option (List α × Bytes)
  | 0, bs => some ([], bs)
  | n + 1, bs => do
    let (a, bs) ← c.get bs
    let (as, bs) ← getAll c n bs
    return (a :: as, bs)

/-- Sequences, behind their lengths. -/
def list (c : Codec α) : Codec (List α) where
  put as := do
    let n ← (nat 8).put as.length
    let bs ← putAll c as
    return n ++ bs
  get bs := do
    let (n, bs) ← (nat 8).get bs
    getAll c n bs

/-- Texts in UTF-8, behind their lengths in bytes. -/
def string : Codec String where
  put s := do
    let bytes := s.toUTF8.data.toList
    let n ← (nat 8).put bytes.length
    return n ++ bytes
  get bs := do
    let (n, bs) ← (nat 8).get bs
    if n ≤ bs.length then
      let s ← String.fromUTF8? ⟨(bs.take n).toArray⟩
      return (s, bs.drop n)
    else none

/-- Values that may be absent, behind a byte that tells whether they are there. -/
def option (c : Codec α) : Codec (Option α) where
  put
    | none => some [0]
    | some a => (c.put a).map (1 :: ·)
  get
    | 0 :: bs => some (none, bs)
    | 1 :: bs => (c.get bs).map fun (a, bs) => (some a, bs)
    | _ => none

/-- The values of a list by their places in it. -/
def ofList [DecidableEq α] (all : List α) : Codec α where
  put a := if a ∈ all then (nat 4).put (all.idxOf a) else none
  get bs := do
    let (n, bs) ← (nat 4).get bs
    let a ← all[n]?
    return (a, bs)

end Codec

/-- One of the alternatives of a type. -/
structure Variant (α : Type) where
  /-- The bytes of a value of this alternative, if it fits; `none` for other values. -/
  put? : α → Option (Option Bytes)
  /-- The value of this alternative at the start of some bytes. -/
  get : Bytes → Option (α × Bytes)

/-- The alternative of the values that carry a value of another type. -/
def Variant.of {α β : Type} (c : Codec β) (make : β → α) (content? : α → Option β) :
    Variant α where
  put? a := (content? a).map c.put
  get bs := (c.get bs).map fun (b, bs) => (make b, bs)

namespace Codec

variable {α : Type}

/-- The bytes of a value behind the number of its alternative, counted from `index` on. -/
def putUnion (a : α) (index : Nat) : List (Variant α) → Option Bytes
  | [] => none
  | v :: vs =>
    match v.put? a with
    | some content => do
      let tag ← (nat 4).put index
      let bs ← content
      return tag ++ bs
    | none => putUnion a (index + 1) vs

/-- Values of several alternatives, behind the numbers of these. -/
def union (vs : List (Variant α)) : Codec α where
  put a := putUnion a 0 vs
  get bs := do
    let (n, bs) ← (nat 4).get bs
    let v ← vs[n]?
    v.get bs

/-- No values at all. -/
def empty : Codec α where
  put _ := none
  get _ := none

end Codec

end BytecodeLowering.Machine
