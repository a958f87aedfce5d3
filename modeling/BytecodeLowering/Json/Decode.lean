import BytecodeLowering.Json.Basic

/-!
# Decoding JSON values

Building blocks for readers of JSON values. A reader of a text reports the first fault in the order
of the text, so a record is read by readers of its fields of which the earliest fault wins.

* `Fault`: why a value cannot be read: its shape, or a meaning that does not exist.
* `Decoder`: a reader of values that nest at most a given number of containers.
* `Fields`: a reader of the members of a record, put together with `<$>` and `<*>`.
* `Fields.required`, `Fields.defaulted`, `Fields.nullable`: what happens when a field is not there.
* `Fields.record`: a record, written as an object or as the sequence of its fields.
* `Fields.tagged`: an alternative named by one member with its content in another.
* `Decoder.choice`: one of several alternatives, a bare word or an object with one member.
-/

namespace BytecodeLowering.Json

/-- Why a value cannot be read. -/
inductive Fault (ε : Type) where
  /-- The value does not have the expected shape. -/
  | shape
  /-- The value has the expected shape, but what it says cannot be. -/
  | meaning (e : ε)
  deriving DecidableEq, Repr

/-- A reader of values that may nest as many containers as its first argument says. -/
abbrev Decoder (ε α : Type) := Nat → Json → Except (Fault ε) α

namespace Decoder

variable {ε α β : Type}

/-- Reads a value and converts it. -/
def map (f : α → β) (d : Decoder ε α) : Decoder ε β :=
  fun room j => (d room j).map f

/-- Reads a text. -/
def text : Decoder ε String
  | _, .string (some s) => .ok s
  | _, _ => .error .shape

/-- Reads a truth value. -/
def bool : Decoder ε Bool
  | _, .bool b => .ok b
  | _, _ => .error .shape

/-- Reads an integer in the given range, both ends included. -/
def intIn (low high : Int) : Decoder ε Int
  | _, .number n =>
    match n.toInt? with
    | some i => if low ≤ i ∧ i ≤ high then .ok i else .error .shape
    | none => .error .shape
  | _, _ => .error .shape

/-- Reads a natural number of at most the given number of bits. -/
def natOfBits (bits : Nat) : Decoder ε Nat :=
  fun room j => (intIn 0 (Nat.pow 2 bits - 1 : Nat) room j).map Int.toNat

/-- Reads a 32-bit integer. -/
def int32 : Decoder ε Int32 :=
  fun room j => (intIn Int32.minValue.toInt Int32.maxValue.toInt room j).map Int32.ofInt

/-- Reads a 64-bit integer. -/
def int64 : Decoder ε Int64 :=
  fun room j => (intIn Int64.minValue.toInt Int64.maxValue.toInt room j).map Int64.ofInt

/-- Reads a 32-bit floating-point value. -/
def single : Decoder ε Number.Single
  | _, .number n =>
    match n.toSingle? with
    | some x => .ok x
    | none => .error .shape
  | _, _ => .error .shape

/-- Reads a 64-bit floating-point value. -/
def double : Decoder ε Number.Double
  | _, .number n =>
    match n.toDouble? with
    | some x => .ok x
    | none => .error .shape
  | _, _ => .error .shape

/-- Reads a value that may be `null`. -/
def optional (d : Decoder ε α) : Decoder ε (Option α)
  | _, .null => .ok none
  | room, j => (d room j).map some

/-- Reads the values of a list. -/
def items (d : Decoder ε α) (room : Nat) : List Json → Except (Fault ε) (List α)
  | [] => .ok []
  | j :: js => do
    let x ← d room j
    let xs ← items d room js
    return x :: xs

/-- Reads a sequence. -/
def list (d : Decoder ε α) : Decoder ε (List α)
  | room + 1, .array js => items d room js
  | _, _ => .error .shape

/-- Reads a value and then converts it, which may fail for its meaning. -/
def refine (d : Decoder ε α) (f : α → Except ε β) : Decoder ε β :=
  fun room j => do
    let x ← d room j
    match f x with
    | .ok y => return y
    | .error e => .error (.meaning e)

/-- Reads one of several alternatives: a bare word, which may also stand as the key of `null`, or
an object whose only key names the reader of its value. -/
def choice (word? : String → Option α) (payload? : String → Option (Decoder ε α)) : Decoder ε α
  | _, .string (some s) =>
    match word? s with
    | some x => .ok x
    | none => .error .shape
  | room + 1, .object ((some key, j) :: rest) => do
    let x ←
      match word? key, payload? key with
      | some x, _ => if j matches .null then .ok x else .error .shape
      | none, some d => d room j
      | none, none => .error .shape
    if rest.isEmpty then return x else .error .shape
  | _, _ => .error .shape

/-- Reads one of several bare words. -/
def words (word? : String → Option α) : Decoder ε α :=
  choice word? fun _ => none

/-- Reads one of several bare words, which may also stand as the key of an empty object. -/
def looseWords (word? : String → Option α) : Decoder ε α
  | _, .object [(some key, .object [])] =>
    match word? key with
    | some x => .ok x
    | none => .error .shape
  | room, j => words word? room j

end Decoder

/-- The members of a record under consideration, each with its place in the text. -/
abbrev Members := List (Nat × Option String × Json)

/-- A reader of the members of a record. A failure comes with the place of the member it lies in;
a missing member counts as behind all others. -/
structure Fields (ε α : Type) where
  /-- The names of the fields, in the order of the record. -/
  names : List String
  /-- Reads the fields; the first argument tells whether the record is written as a sequence. -/
  read : Bool → Nat → Members → Except (Nat × Fault ε) α

namespace Fields

variable {ε α β : Type}

/-- Of two outcomes the failure that comes first, or both values. -/
def both (f : Except (Nat × Fault ε) (α → β)) (x : Except (Nat × Fault ε) α) :
    Except (Nat × Fault ε) β :=
  match f, x with
  | .ok f, .ok x => .ok (f x)
  | .error e, .ok _ => .error e
  | .ok _, .error e => .error e
  | .error e, .error e' => .error (if e'.1 < e.1 then e' else e)

instance : Functor (Fields ε) where
  map f x := ⟨x.names, fun inOrder room ms => (x.read inOrder room ms).map f⟩

instance : Seq (Fields ε) where
  seq f x :=
    let x := x ()
    ⟨f.names ++ x.names, fun inOrder room ms =>
      both (f.read inOrder room ms) (x.read inOrder room ms)⟩

/-- The first member with the given name. -/
def find? (name : String) (ms : Members) : Option (Nat × Json) :=
  (ms.find? fun m => m.2.1 == some name).map fun m => (m.1, m.2.2)

/-- The place behind all members. -/
def behind (ms : Members) : Nat :=
  ms.length

/-- Reads the member with the given name, or gives the fallback if there is none; the fallback is
told whether the record is written as a sequence. -/
def orElse (name : String) (d : Decoder ε α) (fallback : Bool → Except (Fault ε) α) :
    Fields ε α where
  names := [name]
  read inOrder room ms :=
    match find? name ms with
    | some (place, j) => (d room j).mapError fun e => (place, e)
    | none => (fallback inOrder).mapError fun e => (behind ms, e)

/-- A field that has to be there. -/
def required (name : String) (d : Decoder ε α) : Fields ε α :=
  orElse name d fun _ => .error .shape

/-- A field that has a value of its own when it is absent. -/
def defaulted (name : String) (fallback : α) (d : Decoder ε α) : Fields ε α :=
  orElse name d fun _ => .ok fallback

/-- A field that may be `null`. It may be left out of an object, where its name tells that it is
missing, but not of a sequence. -/
def nullable (name : String) (d : Decoder ε α) : Fields ε (Option α) :=
  orElse name d.optional fun inOrder => if inOrder then .error .shape else .ok none

/-- The place of the first member that no record may have: a repeated field, a key that is no text,
or a value under an unknown name that is not well-formed. -/
def misplaced? (names : List String) (seen : List String) : Members → Option Nat
  | [] => none
  | (place, key, j) :: ms =>
    match key with
    | none => some place
    | some k =>
      if names.contains k then
        if seen.contains k then some place else misplaced? names (k :: seen) ms
      else if j.wellFormed then misplaced? names seen ms
      else some place

/-- Numbers the members of an object. -/
def numbered (ms : List (Option String × Json)) : Members :=
  ms.zipIdx.map fun (m, i) => (i, m)

/-- Gives the fields of a record the values of a sequence, in the order of the record. -/
def positional (names : List String) (js : List Json) : List (Option String × Json) :=
  (names.map some).zip js

/-- Reads a record, which is an object or the sequence of its fields. -/
def record (fields : Fields ε α) : Decoder ε α
  | room + 1, .object ms =>
    let ms := numbered ms
    -- A member that must not be there competes with the faults of the fields for the first place.
    let clean : Except (Nat × Fault ε) (α → α) :=
      match misplaced? fields.names [] ms with
      | some place => .error (place, .shape)
      | none => .ok id
    (both clean (fields.read false room ms)).mapError Prod.snd
  | room + 1, .array js => do
    let x ← (fields.read true room (numbered (positional fields.names js))).mapError Prod.snd
    if js.length ≤ fields.names.length then return x else .error .shape
  | _, _ => .error .shape

/-- Reads an alternative whose name stands under `tag` and whose content stands under `content`, as
an object or as the pair of both. An alternative without content allows `null` for it. A content in
front of its name is read when the name is known, and until then only has to be plain JSON;
`alternative` is told whether the content was kept so, and then may read it more loosely. -/
def tagged {τ : Type} (tag content : String) (name : Decoder ε τ)
    (alternative : Bool → τ → α ⊕ Decoder ε α) : Decoder ε α
  | room + 1, .object ms =>
    let ms := numbered ms
    let clean : Except (Nat × Fault ε) (α → α) :=
      match misplaced? [tag, content] [] ms with
      | some place => .error (place, .shape)
      | none => .ok id
    let body (kept : Bool) (t : τ) (j : Json) : Except (Fault ε) α :=
      match alternative kept t with
      | .inl x => if j matches .null then .ok x else .error .shape
      | .inr d => d room j
    let value : Except (Nat × Fault ε) α :=
      match find? tag ms, find? content ms with
      | none, _ => .error (behind ms, .shape)
      | some (place, j), none => do
        let t ← (name room j).mapError fun e => (place, e)
        match alternative false t with
        | .inl x => return x
        | .inr _ => .error (behind ms, .shape)
      | some (place, j), some (place', j') => do
        -- A content in front of its name is read late, so its faults lie at the name.
        if place < place' then
          let t ← (name room j).mapError fun e => (place, e)
          (body false t j').mapError fun e => (place', e)
        else if j'.plain room then
          (do body true (← name room j) j').mapError fun e => (place, e)
        else .error (place', .shape)
    (both clean value).mapError Prod.snd
  | room + 1, .array (j :: j' :: rest) => do
    let t ← name room j
    let x ←
      match alternative false t with
      | .inl x => if j' matches .null then .ok x else .error .shape
      | .inr d => d room j'
    if rest.isEmpty then return x else .error .shape
  | _, _ => .error .shape

end Fields

end BytecodeLowering.Json
