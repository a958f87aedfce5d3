import BytecodeLowering.Lowering.Selection
import BytecodeLowering.Proofs.Machine.Run
import Mathlib

/-!
# Conversions between integer types

What the operations for a conversion do to a value, over all pairs of types that hold integers.

* `Prim.bits`, `Prim.isSigned`, `Prim.range`: the width of a type, whether its top bit is a sign,
  and its values.
* `Prim.wrap`: the low bits of an integer as a value of a type. It is in the range
  (`Prim.wrap_mem_range`), it keeps the residue (`Prim.wrap_modEq`), and it leaves alone what is in
  the range already (`Prim.wrap_eq_self`).
* `Prim.word`: a value of a type as it is computed with. It stands for its integer
  (`Prim.toInt_word`).
* `Opcode.convert`, `convertAll`: what the operations that convert integers do.
* `fits_iff_range_subset`: the types that need no operation are those that hold every value.
* `conversion_eq_nil_iff`, `convertAll_eq_done`: when a conversion is empty, and what it leaves.
* `conversion_computes`: both together.
-/

namespace BytecodeLowering

/-- The integer that a value is. -/
def Value.toInt : Value → Int
  | .int v => v.toInt
  | .long v => v.toInt

end BytecodeLowering

namespace BytecodeLowering.Ir.Prim

/-- The number of bits of a type that tell its values apart. -/
def bits : Prim → Nat
  | boolean => 1
  | byte => 8
  | char | short => 16
  | int | float => 32
  | long | double => 64

/-- Whether the top bit of a value is its sign. -/
def isSigned : Prim → Bool
  | boolean | char => false
  | byte | short | int | long | float | double => true

/-- The type holds integers. -/
def IsInteger (p : Prim) : Prop :=
  p.category = .int ∨ p.category = .long

/-- The least value of an integer type. -/
def least (p : Prim) : Int :=
  if p.isSigned then -2 ^ (p.bits - 1) else 0

/-- What all values of an integer type are less than. -/
def bound (p : Prim) : Int :=
  if p.isSigned then 2 ^ (p.bits - 1) else 2 ^ p.bits

/-- The values of an integer type. Those of `boolean` are zero and one. -/
def range (p : Prim) : Set Int :=
  Set.Ico p.least p.bound

/-- The low bits of an integer as a value of a type, in two's complement if the type has a sign. -/
def wrap (p : Prim) (v : Int) : Int :=
  if p.isSigned then (BitVec.ofInt p.bits v).toInt else (BitVec.ofInt p.bits v).toNat

/-- A value of an integer type as it is computed with. -/
def word (p : Prim) (v : Int) : Value :=
  if p.category = .long then .long (.ofInt v) else .int (.ofInt v)

variable {p q : Prim} {v w : Int}

/-- An integer type has as many values as its bits tell apart. -/
theorem bound_sub_least (p : Prim) : p.bound - p.least = 2 ^ p.bits := by
  cases p <;> decide

/-- The low bits of an integer are a value of the type. -/
theorem wrap_mem_range (p : Prim) (v : Int) : p.wrap v ∈ p.range := by
  rw [range, Set.mem_Ico, wrap, least, bound]
  split
  · exact ⟨BitVec.le_toInt _, BitVec.toInt_lt⟩
  · have hlt : (BitVec.ofInt p.bits v).toNat < 2 ^ p.bits := BitVec.isLt _
    exact ⟨Int.natCast_nonneg _, by exact_mod_cast hlt⟩

/-- The low bits of an integer leave its residue as it is. -/
theorem wrap_modEq (p : Prim) (v : Int) : p.wrap v ≡ v [ZMOD 2 ^ p.bits] := by
  rw [Int.ModEq, wrap]
  split
  · -- With a sign it is the balanced residue.
    rw [BitVec.toInt_ofInt]
    exact_mod_cast Int.bmod_emod
  · rw [BitVec.toNat_ofInt, Int.toNat_of_nonneg (Int.emod_nonneg _ (by positivity))]
    push_cast
    exact Int.emod_emod v (2 ^ p.bits)

/-- A type has one value of each residue. -/
theorem eq_of_modEq (hv : v ∈ p.range) (hw : w ∈ p.range) (h : v ≡ w [ZMOD 2 ^ p.bits]) :
    v = w := by
  have hwidth := bound_sub_least p
  obtain ⟨hv, hv'⟩ := hv
  obtain ⟨hw, hw'⟩ := hw
  -- They differ by less than the number of values.
  have hsmall : |v - w| < 2 ^ p.bits := by rw [abs_lt]; omega
  have hdvd : (2 ^ p.bits : Int) ∣ v - w := h.symm.dvd
  exact Int.sub_eq_zero.1 (Int.eq_zero_of_abs_lt_dvd hdvd hsmall)

/-- A value of the type is its own low bits. -/
theorem wrap_eq_self (hv : v ∈ p.range) : p.wrap v = v :=
  eq_of_modEq (wrap_mem_range p v) hv (wrap_modEq p v)

/-- One type holds the values of another one iff its bounds are wider. -/
theorem range_subset_iff : p.range ⊆ q.range ↔ q.least ≤ p.least ∧ p.bound ≤ q.bound := by
  have hwidth := bound_sub_least p
  have hpos : (0 : Int) < 2 ^ p.bits := by positivity
  exact Set.Ico_subset_Ico_iff (by omega)

/-- A value that is computed with as a 32-bit integer is one. -/
theorem mem_range_int (hp : p.category = .int) (hv : v ∈ p.range) : v ∈ int.range := by
  have hsubset : p.range ⊆ int.range := by
    rw [range_subset_iff]
    cases p with
    | long | float | double => cases hp
    | boolean | byte | char | short | int => decide
  exact hsubset hv

/-- What is computed with as a 64-bit integer is one. -/
theorem eq_long (h : p.category = .long) : p = long := by
  cases p <;> first | rfl | cases h

/-- Types that are computed with alike have the same words. -/
theorem word_eq_of_category (h : p.category = q.category) (v : Int) : p.word v = q.word v := by
  rw [word, word, h]

/-- A value of an integer type is the integer that it stands for. -/
theorem toInt_word (hp : p.IsInteger) (hv : v ∈ p.range) : (p.word v).toInt = v := by
  rcases hp with hp | hp
  · rw [word_eq_of_category (q := int) hp]
    obtain ⟨hv, hv'⟩ := mem_range_int hp hv
    exact Int32.toInt_ofInt_of_le hv hv'
  · cases eq_long hp
    exact Int64.toInt_ofInt_of_le hv.1 hv.2

/-- A value that is computed with like those of a type stands for its integer. -/
theorem word_toInt {a : Value} (ha : a.category = p.category) : p.word a.toInt = a := by
  cases a with
  | int a =>
    rw [word_eq_of_category (q := int) ha.symm]
    exact congrArg Value.int (Int32.ofInt_toInt a)
  | long a =>
    rw [word_eq_of_category (q := long) ha.symm]
    exact congrArg Value.long (Int64.ofInt_toInt a)

/-- The word of a type is of its category. -/
theorem category_word (hp : p.IsInteger) (v : Int) : (p.word v).category = p.category := by
  rcases hp with hp | hp <;> rw [word, hp] <;> rfl

/-- A 32-bit integer is its low bits. -/
theorem word_wrap_int (v : Int) : int.word (int.wrap v) = int.word v := by
  change Value.int (.ofBitVec (BitVec.ofInt 32 (BitVec.ofInt 32 v).toInt)) = _
  rw [BitVec.ofInt_toInt]
  rfl

/-- A 64-bit integer is its low bits. -/
theorem word_wrap_long (v : Int) : long.word (long.wrap v) = long.word v := by
  change Value.long (.ofBitVec (BitVec.ofInt 64 (BitVec.ofInt 64 v).toInt)) = _
  rw [BitVec.ofInt_toInt]
  rfl

end BytecodeLowering.Ir.Prim

namespace BytecodeLowering.Machine

/-- The low bits of a 32-bit integer, with the top one of them as the sign. -/
def lowSigned (n : Nat) (a : Int32) : Int32 :=
  .ofBitVec ((a.toBitVec.setWidth n).signExtend 32)

/-- The low bits of a 32-bit integer, with zeros above them. -/
def lowUnsigned (n : Nat) (a : Int32) : Int32 :=
  .ofBitVec ((a.toBitVec.setWidth n).setWidth 32)

/-- What an operation does to the operand stack if it computes with integers or converts them. -/
def Opcode.convert (op : Opcode) (stack : List Value) : Result (List Value) :=
  match op with
  | i2b => onInt (fun a => .int (lowSigned 8 a)) stack
  | i2s => onInt (fun a => .int (lowSigned 16 a)) stack
  | i2c => onInt (fun a => .int (lowUnsigned 16 a)) stack
  | op => op.compute stack

/-- What operations do to the operand stack, one after the other. -/
def convertAll : List Opcode → List Value → Result (List Value)
  | [], stack => .done stack
  | op :: ops, stack => (op.convert stack).bind (convertAll ops)

variable {n : Nat}

/-- Low bits stay what they are under a cut that keeps them. -/
theorem setWidth_ofInt_of_le (h : n ≤ 32) (v : Int) :
    (BitVec.ofInt 32 v).setWidth n = BitVec.ofInt n v := by
  apply BitVec.eq_of_toInt_eq
  -- A cut is also an extension to fewer bits, of which the residue is known for the signed reading.
  rw [← BitVec.signExtend_eq_setWidth_of_le _ h, BitVec.toInt_signExtend_eq_toInt_bmod_of_le _ h,
    BitVec.toInt_ofInt, BitVec.toInt_ofInt, Int.bmod_bmod_of_dvd (Nat.pow_dvd_pow 2 h)]

/-- The low bits with a sign are those of the integer that is cut. -/
theorem lowSigned_ofInt (h : n ≤ 32) (v : Int) :
    lowSigned n (.ofInt v) = .ofInt (BitVec.ofInt n v).toInt := by
  rw [lowSigned, Int32.toBitVec_ofInt, setWidth_ofInt_of_le h]
  rfl

/-- The low bits without a sign are those of the integer that is cut. -/
theorem lowUnsigned_ofInt (h : n ≤ 32) (v : Int) :
    lowUnsigned n (.ofInt v) = .ofInt (BitVec.ofInt n v).toNat := by
  rw [lowUnsigned, Int32.toBitVec_ofInt, setWidth_ofInt_of_le h, ← BitVec.ofNat_toNat,
    ← BitVec.ofInt_natCast]
  rfl

end BytecodeLowering.Machine

namespace BytecodeLowering.Lowering

open Ir Machine

variable {source target : Prim} {v : Int}

/-- A type needs no operation for the values of another one iff it holds all of them. -/
theorem fits_iff_range_subset (hs : source.category = .int) (ht : target.category = .int)
    (hb : target ≠ .boolean) : fits source target = true ↔ source.range ⊆ target.range := by
  rw [Prim.range_subset_iff]
  -- Each narrower type has an operation that extends the low bits again, with their sign or
  -- without.
  cases target with
  | boolean => exact absurd rfl hb
  | long | float | double => cases ht
  | byte | char | short | int =>
    cases source with
    | long | float | double => cases hs
    | boolean | byte | char | short | int => decide

/-- The operations for a conversion to a type that is computed with as a 32-bit integer leave its
low bits. -/
theorem convertAll_narrowing (ht : target.category = .int) (hb : target ≠ .boolean) (v : Int)
    (stack : List Value) : convertAll (narrowing target) (Prim.int.word v :: stack) =
      .done (target.word (target.wrap v) :: stack) := by
  cases target with
  | boolean => exact absurd rfl hb
  | byte =>
    have hlow := lowSigned_ofInt (show 8 ≤ 32 by decide) v
    exact congrArg (fun a => Outcome.done (Value.int a :: stack)) hlow
  | short =>
    have hlow := lowSigned_ofInt (show 16 ≤ 32 by decide) v
    exact congrArg (fun a => Outcome.done (Value.int a :: stack)) hlow
  | char =>
    have hlow := lowUnsigned_ofInt (show 16 ≤ 32 by decide) v
    exact congrArg (fun a => Outcome.done (Value.int a :: stack)) hlow
  | int =>
    rw [Prim.word_wrap_int]
    rfl
  | long | float | double => cases ht

/-- A 32-bit integer is extended with its sign. -/
theorem convertAll_i2l (hv : v ∈ Prim.int.range) (stack : List Value) :
    convertAll [.i2l] (Prim.int.word v :: stack) = .done (Prim.long.word v :: stack) := by
  have hlong : (Int32.ofInt v).toInt64 = .ofInt v :=
    Int32.toInt64_ofInt hv.1 (Int.le_of_lt_add_one hv.2)
  exact congrArg (fun a => Outcome.done (Value.long a :: stack)) hlong

/-- The low half of a 64-bit integer is what comes next. -/
theorem convertAll_l2i (ops : List Opcode) (v : Int) (stack : List Value) :
    convertAll (.l2i :: ops) (Prim.long.word v :: stack) =
      convertAll ops (Prim.int.word v :: stack) := by
  have hint : (Int64.ofInt v).toInt32 = .ofInt v := Int64.toInt32_ofInt
  exact congrArg (fun a => convertAll ops (Value.int a :: stack)) hint

/-- Only a type that needs no operation is left as it is by a cut. -/
theorem fits_of_narrowing_eq_nil (ht : target.category = .int) (h : narrowing target = []) :
    fits source target = true := by
  cases target with
  | boolean | int => rfl
  | byte | char | short => cases h
  | long | float | double => cases ht

/-- No operation is used iff the types are computed with alike and the target type holds every value
of the source type. -/
theorem conversion_eq_nil_iff (hs : source.IsInteger) (ht : target.IsInteger)
    (hb : target ≠ .boolean) : conversion source target = [] ↔
      source.category = target.category ∧ source.range ⊆ target.range := by
  rcases hs with hs | hs <;> rcases ht with ht | ht <;> rw [hs, ht]
  · rw [← fits_iff_range_subset hs ht hb]
    simp only [conversion, hs, ht]
    -- Between the types that are computed with as 32-bit integers, an operation is used unless the
    -- target holds the source.
    by_cases hfits : fits source target = true
    · simp [hfits]
    · have hne : narrowing target ≠ [] := fun h => hfits (fits_of_narrowing_eq_nil ht h)
      simp [hfits, hne]
  · simp [conversion, hs, ht]
  · simp [conversion, hs, ht]
  · cases Prim.eq_long hs
    cases Prim.eq_long ht
    simp [conversion, Prim.category]

/-- The operations of a conversion leave the low bits of the value. -/
theorem convertAll_eq_done (hs : source.IsInteger) (ht : target.IsInteger)
    (hb : target ≠ .boolean) (hv : v ∈ source.range) (stack : List Value) :
    convertAll (conversion source target) (source.word v :: stack) =
      .done (target.word (target.wrap v) :: stack) := by
  rcases hs with hs | hs
  · rw [Prim.word_eq_of_category (q := .int) hs]
    rcases ht with ht | ht
    · by_cases hfits : fits source target = true
      · -- Nothing is done, and the value is its own low bits.
        have hmem : v ∈ target.range := (fits_iff_range_subset hs ht hb).1 hfits hv
        rw [Prim.wrap_eq_self hmem, Prim.word_eq_of_category (q := .int) ht]
        simp [conversion, hs, ht, hfits, convertAll]
      · simp only [conversion, hs, ht, hfits]
        exact convertAll_narrowing ht hb v stack
    · cases Prim.eq_long ht
      rw [Prim.word_wrap_long]
      simp only [conversion, hs]
      exact convertAll_i2l (Prim.mem_range_int hs hv) stack
  · rcases ht with ht | ht
    · -- The high half goes first; what is left is cut like any 32-bit integer.
      simp only [conversion, hs, ht]
      cases Prim.eq_long hs
      exact (convertAll_l2i _ v stack).trans (convertAll_narrowing ht hb v stack)
    · cases Prim.eq_long hs
      cases Prim.eq_long ht
      rw [Prim.word_wrap_long]
      rfl

/-- The conversion from one integer type to another one takes every value to its low bits: to the
value of the target type that has the same residue. No operation is used iff the types are computed
with alike and the target type holds every value of the source type. -/
theorem conversion_computes (hs : source.IsInteger) (ht : target.IsInteger)
    (hb : target ≠ .boolean) :
    (∀ (a : Value) (stack : List Value), a.category = source.category → a.toInt ∈ source.range →
      ∃ b : Value, convertAll (conversion source target) (a :: stack) = .done (b :: stack) ∧
        b.category = target.category ∧ b.toInt = target.wrap a.toInt ∧ b.toInt ∈ target.range ∧
        b.toInt ≡ a.toInt [ZMOD 2 ^ target.bits]) ∧
    (conversion source target = [] ↔
      source.category = target.category ∧ source.range ⊆ target.range) := by
  refine ⟨fun a stack ha hmem => ?_, conversion_eq_nil_iff hs ht hb⟩
  have hwrap : target.wrap a.toInt ∈ target.range := Prim.wrap_mem_range target a.toInt
  have hresult : (target.word (target.wrap a.toInt)).toInt = target.wrap a.toInt :=
    Prim.toInt_word ht hwrap
  refine ⟨target.word (target.wrap a.toInt), ?_, Prim.category_word ht _, hresult, ?_, ?_⟩
  · -- A value of the source type is the one that stands for its integer.
    have hrun := convertAll_eq_done hs ht hb hmem stack
    rw [Prim.word_toInt ha] at hrun
    exact hrun
  · rw [hresult]
    exact hwrap
  · rw [hresult]
    exact Prim.wrap_modEq target a.toInt

/-- A negative byte becomes a large character, and needs an operation for it. -/
theorem byte_to_char_computes :
    (∃ b : Value, convertAll (conversion .byte .char) [.int (-1)] = .done [b] ∧
      b.toInt = 65535) ∧ ¬ Prim.byte.range ⊆ Prim.char.range := by
  obtain ⟨hvalues, hnil⟩ := @conversion_computes .byte .char (.inl rfl) (.inl rfl) (by decide)
  constructor
  · have hmem : (Value.int (-1)).toInt ∈ Prim.byte.range := ⟨by decide, by decide⟩
    obtain ⟨b, hrun, -, hwrap, -⟩ := hvalues (.int (-1)) [] rfl hmem
    exact ⟨b, hrun, hwrap⟩
  · intro hsubset
    cases hnil.2 ⟨rfl, hsubset⟩

end BytecodeLowering.Lowering
