import BytecodeLowering.Text.Quoted

/-!
# Descriptors

The number of slots that a field or method descriptor stands for.

* `FieldType`, `MethodType`: the grammar of descriptors, each derivation with its widths.
* `fieldWidth`, `methodWidths`: the widths of a text, if it is a descriptor.
-/

namespace BytecodeLowering.Machine

/-- Why a text is no descriptor. -/
inductive DescriptorError where
  /-- No type starts at the given byte. -/
  | malformed (desc : String) (place : Nat)
  /-- Something follows the type of a field. -/
  | trailing (desc : String)
  /-- The descriptor of a method starts without its parameters. -/
  | noParameters (desc : String)
  deriving DecidableEq, Repr

/-- The wording of a descriptor error. -/
def DescriptorError.message : DescriptorError → String
  | malformed desc place =>
    "malformed descriptor " ++ Text.quoted desc ++ " at " ++ toString place
  | trailing desc => "trailing characters in field descriptor " ++ Text.quoted desc
  | noParameters desc => "method descriptor " ++ Text.quoted desc ++ " must start with '('"

namespace Descriptor

/-- The letters of the primitive types of one slot. -/
def narrow : List Char := ['Z', 'B', 'C', 'S', 'I', 'F']

/-- The letters of the primitive types of two slots. -/
def wide : List Char := ['J', 'D']

/-- The texts of types and their widths. -/
inductive FieldType : List Char → Nat → Prop where
  /-- A primitive type of one slot. -/
  | narrow {c : Char} : c ∈ narrow → FieldType [c] 1
  /-- A primitive type of two slots. -/
  | wide {c : Char} : c ∈ wide → FieldType [c] 2
  /-- A class, by its name up to a semicolon. -/
  | object {name : List Char} : ';' ∉ name → FieldType ('L' :: name ++ [';']) 1
  /-- An array. -/
  | array {element : List Char} {w : Nat} : FieldType element w → FieldType ('[' :: element) 1

/-- The texts of type sequences and the sums of their widths. -/
inductive FieldTypes : List Char → Nat → Prop where
  /-- No type. -/
  | nil : FieldTypes [] 0
  /-- A type, then more. -/
  | cons {t ts : List Char} {w n : Nat} :
      FieldType t w → FieldTypes ts n → FieldTypes (t ++ ts) (w + n)

/-- The texts of results and their widths. -/
inductive ResultType : List Char → Nat → Prop where
  /-- No result. -/
  | void : ResultType ['V'] 0
  /-- A value. -/
  | value {t : List Char} {w : Nat} : FieldType t w → ResultType t w

/-- The texts of method types, with the widths of the parameters and of the result. -/
inductive MethodType : List Char → Nat → Nat → Prop where
  /-- Parameters in parentheses, then the result. -/
  | mk {ps r : List Char} {args ret : Nat} :
      FieldTypes ps args → ResultType r ret → MethodType ('(' :: ps ++ ')' :: r) args ret

/-- The number of bytes of a text. -/
def bytes : List Char → Nat
  | [] => 0
  | c :: cs => c.utf8Size + bytes cs

/-- The width of the type at the start of a text, and the text behind it; otherwise the number of
bytes in front of the place where no type starts. -/
def type (cs : List Char) : Except Nat (Nat × List Char) :=
  match cs with
  | '[' :: rest =>
    match type rest with
    | .ok (_, behind) => .ok (1, behind)
    | .error n => .error (n + 1)
  | 'L' :: rest =>
    match rest.dropWhile (· ≠ ';') with
    | _ :: behind => .ok (1, behind)
    | [] => .error 0
  | c :: rest =>
    if c ∈ wide then .ok (2, rest) else if c ∈ narrow then .ok (1, rest) else .error 0
  | [] => .error 0

/-- The text behind a type is shorter. -/
theorem type_length {cs behind : List Char} {w : Nat} (h : type cs = .ok (w, behind)) :
    behind.length < cs.length := by
  fun_induction type cs generalizing w behind with
  | case1 rest w' b h' ih =>
    cases h
    have := ih h'
    simp only [List.length_cons]
    omega
  | case2 => cases h
  | case3 rest c b h' =>
    cases h
    have := (List.dropWhile_sublist (fun x => decide (x ≠ ';')) (l := rest)).length_le
    rw [h'] at this
    simp only [List.length_cons] at this ⊢
    omega
  | case4 => cases h
  | case5 c rest _ _ hw => cases h; simp
  | case6 c rest _ _ hw hn => cases h; simp
  | case7 => cases h
  | case8 => cases h

/-- The sum of the widths of the types up to a closing parenthesis, and the text behind that;
otherwise the number of bytes in front of the place where no type starts. -/
def types (cs : List Char) : Except Nat (Nat × List Char) :=
  match cs with
  | ')' :: rest => .ok (0, rest)
  | cs =>
    match _h : type cs with
    | .error n => .error n
    | .ok (w, behind) =>
      match types behind with
      | .ok (n, result) => .ok (w + n, result)
      | .error n => .error (n + (bytes cs - bytes behind))
termination_by cs.length
decreasing_by exact type_length (by assumption)

end Descriptor

open Descriptor in
/-- The width of a value with the given field descriptor. -/
def fieldWidth (desc : String) : Except DescriptorError Nat :=
  match type desc.toList with
  | .error n => .error (.malformed desc n)
  | .ok (w, []) => .ok w
  | .ok (_, _ :: _) => .error (.trailing desc)

open Descriptor in
/-- The widths of the parameters together and of the result of a method with the given
descriptor. -/
def methodWidths (desc : String) : Except DescriptorError (Nat × Nat) :=
  match desc.toList with
  | '(' :: rest =>
    match types rest with
    | .error n => .error (.malformed desc (n + 1))
    | .ok (args, ['V']) => .ok (args, 0)
    | .ok (args, result) => (fieldWidth (String.ofList result)).map fun ret => (args, ret)
  | _ => .error (.noParameters desc)

end BytecodeLowering.Machine
