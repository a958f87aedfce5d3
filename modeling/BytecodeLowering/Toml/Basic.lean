/-!
# TOML documents

Values under keys, as a settings file has them.

* `Value`: a value; a table knows how it came to be, which decides how it may still grow.
* `Members.define`: a value under a dotted key.
* `Members.openTable`, `Members.openElement`: the table of a header.
* `Members.change`: a change within the table under a path of keys.

Each of these fails where a key would be given twice or a value would be taken for a table.
-/

namespace BytecodeLowering.Toml

/-- How a table came to be. -/
inductive Origin where
  /-- It is on the path of a header. -/
  | path
  /-- A header names it. -/
  | header
  /-- It is on the path of a dotted key. -/
  | dotted
  /-- It is written as one value, and complete. -/
  | closed
  deriving DecidableEq, Repr

/-- A value. -/
inductive Value where
  /-- A truth value. -/
  | boolean (b : Bool)
  /-- An integer. -/
  | integer (i : Int)
  /-- A floating-point number, by its text. -/
  | float (text : String)
  /-- A text. -/
  | text (s : String)
  /-- A date, a time or both, by its text. -/
  | moment (text : String)
  /-- Several values. -/
  | array (items : List Value)
  /-- Values under keys. -/
  | table (origin : Origin) (members : List (String × Value))
  /-- The tables of headers in double brackets, of which the last one may still grow. -/
  | tables (earlier : List (List (String × Value))) (last : List (String × Value))
  deriving Repr

/-- Values under keys, in the order of the text. -/
abbrev Members := List (String × Value)

namespace Value

/-- The members of the table that a key on a path leads to, and the value with other members in
their place. -/
def open? : Value → Option (Members × (Members → Value))
  | table .closed _ => none
  | table origin members => some (members, table origin)
  | tables earlier last => some (last, tables earlier)
  | _ => none

/-- Whether a dotted key may lead through the value, its last step into a table being `direct`. A
value is put only into tables that dotted keys made; these may lie in tables that other headers
merely imply. -/
def admitsDotted (direct : Bool) : Value → Bool
  | table .dotted _ => true
  | table .path _ => !direct
  | tables .. => !direct
  | _ => false

end Value

namespace Members

/-- Puts another value under a key that has one. -/
def replace (key : String) (v : Value) (ms : Members) : Members :=
  ms.map fun m => if m.1 = key then (key, v) else m

/-- Puts a value under a dotted key, which must not have one. -/
def define (v : Value) : List String → Members → Option Members
  | [], _ => none
  | [key], ms => if (ms.lookup key).isSome then none else some (ms ++ [(key, v)])
  | key :: keys, ms =>
    match ms.lookup key with
    | none => (define v keys []).map fun inner => ms ++ [(key, .table .dotted inner)]
    | some u =>
      if u.admitsDotted (keys.length == 1) then do
        let (inner, rebuild) ← u.open?
        return replace key (rebuild (← define v keys inner)) ms
      else none

/-- Makes a change at the last key of a header, within the tables that the other keys imply. -/
def descend (change : String → Members → Option Members) : List String → Members → Option Members
  | [], _ => none
  | [key], ms => change key ms
  | key :: keys, ms =>
    match ms.lookup key with
    | none => (descend change keys []).map fun inner => ms ++ [(key, .table .path inner)]
    | some u => do
      let (inner, rebuild) ← u.open?
      return replace key (rebuild (← descend change keys inner)) ms

/-- Makes the table that a header names. A header may name a table that is on the path of another
one, but not a table a second time. -/
def openTable : List String → Members → Option Members :=
  descend fun key ms =>
    match ms.lookup key with
    | none => some (ms ++ [(key, .table .header [])])
    | some (.table .path inner) => some (replace key (.table .header inner) ms)
    | some _ => none

/-- Makes a further table for the key that a header in double brackets names. -/
def openElement : List String → Members → Option Members :=
  descend fun key ms =>
    match ms.lookup key with
    | none => some (ms ++ [(key, .tables [] [])])
    | some (.tables earlier last) => some (replace key (.tables (earlier ++ [last]) []) ms)
    | some _ => none

/-- Changes the table under a path of keys. -/
def change (f : Members → Option Members) : List String → Members → Option Members
  | [], ms => f ms
  | key :: keys, ms => do
    let (inner, rebuild) ← (← ms.lookup key).open?
    return replace key (rebuild (← change f keys inner)) ms

end Members

end BytecodeLowering.Toml
