import BytecodeLowering.Ir.Ty
import BytecodeLowering.Proofs.Simulation

/-!
# Integer values

The values that the integer operations of three-address code and of the machine compute with, in
two's complement.

* `Value`: a 32-bit or a 64-bit integer, with its `category` and its `width` in words.
* `Ending`: how a method ends.
* `shiftLeft`, `shiftRight`, `shiftRightZero` and their 64-bit forms: shifts. Only the low bits of
  the distance count.
* `compareLong`, `divide`, `remainder` and their 64-bit forms: the other operations that the
  fixed-width integers do not have as they are.
-/

namespace BytecodeLowering

open Ir

/-- An integer value. -/
inductive Value where
  /-- A 32-bit integer. -/
  | int (v : Int32)
  /-- A 64-bit integer. -/
  | long (v : Int64)
  deriving DecidableEq, Repr

namespace Value

/-- The category of a value. -/
def category : Value → Category
  | int _ => .int
  | long _ => .long

/-- The number of words of a value. -/
def width : Value → Nat
  | int _ => 1
  | long _ => 2

/-- A value is as wide as its category. -/
theorem width_eq (v : Value) : v.width = v.category.width := by
  cases v <;> rfl

/-- The value zero of a category. -/
def zero (c : Category) : Value :=
  if c = .long then long 0 else int 0

/-- The value zero of the category of 32-bit or of 64-bit integers is of that category. -/
theorem category_zero {c : Category} (h : c = .int ∨ c = .long) : (zero c).category = c := by
  rcases h with rfl | rfl <;> rfl

/-- A value of the category of 32-bit integers is one. -/
theorem exists_int {v : Value} (h : v.category = .int) : ∃ a, v = int a := by
  cases v with
  | int a => exact ⟨a, rfl⟩
  | long => cases h

/-- A value of the category of 64-bit integers is one. -/
theorem exists_long {v : Value} (h : v.category = .long) : ∃ a, v = long a := by
  cases v with
  | int => cases h
  | long a => exact ⟨a, rfl⟩

end Value

/-- How a method ends. -/
inductive Ending where
  /-- It returns, with a value or without one. -/
  | returned (v : Option Value)
  /-- It divides by zero. -/
  | divisionByZero
  deriving DecidableEq, Repr

/-- What a computation of a method comes to. -/
abbrev Result (α : Type) := Outcome Ending α

/-- Shifts to the left by the low five bits of the distance. -/
def shiftLeft (a n : Int32) : Int32 :=
  a <<< (n &&& 31)

/-- Shifts to the right by the low five bits of the distance, and keeps the sign. -/
def shiftRight (a n : Int32) : Int32 :=
  a >>> (n &&& 31)

/-- Shifts to the right by the low five bits of the distance, and fills with zeros. -/
def shiftRightZero (a n : Int32) : Int32 :=
  (a.toUInt32 >>> (n &&& 31).toUInt32).toInt32

/-- Shifts to the left by the low six bits of the distance. -/
def shiftLeftLong (a : Int64) (n : Int32) : Int64 :=
  a <<< (n &&& 63).toInt64

/-- Shifts to the right by the low six bits of the distance, and keeps the sign. -/
def shiftRightLong (a : Int64) (n : Int32) : Int64 :=
  a >>> (n &&& 63).toInt64

/-- Shifts to the right by the low six bits of the distance, and fills with zeros. -/
def shiftRightZeroLong (a : Int64) (n : Int32) : Int64 :=
  (a.toUInt64 >>> (n &&& 63).toInt64.toUInt64).toInt64

/-- Tells how two 64-bit integers compare by how a 32-bit integer compares with zero. -/
def compareLong (a b : Int64) : Int32 :=
  if b < a then 1 else if a = b then 0 else -1

/-- The quotient, rounded towards zero. -/
def divide (a b : Int32) : Result Int32 :=
  if b = 0 then .ends .divisionByZero else .done (a / b)

/-- The remainder, with the sign of the dividend. -/
def remainder (a b : Int32) : Result Int32 :=
  if b = 0 then .ends .divisionByZero else .done (a % b)

/-- The quotient of 64-bit integers, rounded towards zero. -/
def divideLong (a b : Int64) : Result Int64 :=
  if b = 0 then .ends .divisionByZero else .done (a / b)

/-- The remainder of 64-bit integers, with the sign of the dividend. -/
def remainderLong (a b : Int64) : Result Int64 :=
  if b = 0 then .ends .divisionByZero else .done (a % b)

end BytecodeLowering
