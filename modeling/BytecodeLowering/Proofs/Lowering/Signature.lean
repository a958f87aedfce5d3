import BytecodeLowering.Lowering.Signature
import BytecodeLowering.Proofs.Ir.Width
import BytecodeLowering.Proofs.Machine.Descriptor
import BytecodeLowering.Proofs.Result
import Mathlib.Algebra.GroupWithZero.Nat

/-!
# Descriptors of types

The descriptors of types and of methods are read with the widths of the types.

* `fieldType_of_descriptor`, `fieldWidth_of_descriptor`: types.
* `methodType_of_methodDescriptor`, `methodWidths_of_methodDescriptor`: methods.
* `internalName_inj`: names without slashes have internal forms of their own.
-/

namespace BytecodeLowering.Lowering

open Ir Machine Descriptor

variable {t : Ty} {desc : String}

/-- The internal form of a name without a semicolon has none. -/
theorem notMem_internalName {n : ClassName} (h : ';' ∉ n.text.toList) :
    ';' ∉ n.internalName.toList := by
  rw [ClassName.internalName, String.toList_ofList]
  intro hmem
  obtain ⟨c, hc, hslash⟩ := List.mem_map.1 hmem
  unfold ClassName.slash at hslash
  split at hslash
  · cases hslash
  · exact h (hslash ▸ hc)

/-- A slash as the dot that it stands for, and any other character as itself. -/
def dot (c : Char) : Char :=
  if c = '/' then '.' else c

/-- With dots in place of the slashes, the internal form of a name without slashes is the name. -/
theorem map_dot_internalName {n : ClassName} (h : '/' ∉ n.text.toList) :
    n.internalName.toList.map dot = n.text.toList := by
  rw [ClassName.internalName, String.toList_ofList, List.map_map]
  refine (List.map_congr_left fun c hc => ?_).trans (List.map_id _)
  have hne : c ≠ '/' := fun hslash => h (hslash ▸ hc)
  by_cases hdot : c = '.' <;> simp [ClassName.slash, dot, hdot, hne]

/-- Names without slashes are told apart by their internal forms. -/
theorem internalName_inj {n n' : ClassName} (h : '/' ∉ n.text.toList) (h' : '/' ∉ n'.text.toList)
    (heq : n.internalName = n'.internalName) : n = n' := by
  have htext : n.text.toList = n'.text.toList := by
    rw [← map_dot_internalName h, heq, map_dot_internalName h']
  obtain ⟨text⟩ := n
  obtain ⟨text'⟩ := n'
  exact congrArg ClassName.mk (String.toList_injective htext)

/-- The descriptor of an array has a bracket for each dimension in front of that of its base. -/
theorem toList_brackets_append (n : Nat) (d : String) :
    (String.join (List.replicate n "[") ++ d).toList = List.replicate n '[' ++ d.toList := by
  simp [String.toList_join, List.flatMap_replicate]

/-- Brackets in front of the text of a type are an array type. -/
theorem fieldType_replicate {cs : List Char} {w : Nat} (h : FieldType cs w) (n : Nat) :
    FieldType (List.replicate (n + 1) '[' ++ cs) 1 := by
  induction n with
  | zero => exact .array h
  | succ n ih => exact .array ih

/-- The descriptor of a type is a text of the width of the type. -/
theorem fieldType_of_descriptor (ht : t.Nameable) (h : descriptor t = .ok desc) :
    FieldType desc.toList t.width := by
  induction t generalizing desc with
  | prim p =>
    cases h
    cases p <;> first | exact .narrow (by decide) | exact .wide (by decide)
  | void => cases ht
  | null => cases h
  | unknown => cases h
  | object n =>
    cases h
    have htext : (classDescriptor n).toList = 'L' :: n.internalName.toList ++ [';'] := by
      simp [classDescriptor]
    rw [htext]
    exact .object (notMem_internalName ht)
  | array base dims ih =>
    obtain ⟨hdims, hbase⟩ := ht
    obtain ⟨d, hd, rfl⟩ := map_eq_ok_iff.1 h
    obtain ⟨n, rfl⟩ := Nat.exists_eq_add_of_le' hdims
    rw [toList_brackets_append]
    exact fieldType_replicate (ih hbase hd) n

/-- The descriptor of a type has the width of the type. -/
theorem fieldWidth_of_descriptor (ht : t.Nameable) (h : descriptor t = .ok desc) :
    fieldWidth desc = .ok t.width :=
  fieldWidth_eq_ok (fieldType_of_descriptor ht h)

/-- The descriptors of types one behind the other are a text of the sum of the widths. -/
theorem fieldTypes_of_descriptors {ts : List Ty} {ds : List String} (hts : ∀ t ∈ ts, t.Nameable)
    (h : List.Forall₂ (fun t d => descriptor t = .ok d) ts ds) :
    FieldTypes (ds.flatMap String.toList) (ts.map Ty.width).sum := by
  induction h with
  | nil => exact .nil
  | cons hd _ ih =>
    refine .cons (fieldType_of_descriptor (hts _ List.mem_cons_self) hd) (ih fun t ht => ?_)
    exact hts t (List.mem_cons_of_mem _ ht)

/-- The descriptor of a method is made of those of its parameters and of its result. -/
theorem methodDescriptor_eq_ok {proto : MethodProto} (h : methodDescriptor proto = .ok desc) :
    ∃ ds d, List.Forall₂ (fun t d => descriptor t = .ok d) proto.params ds ∧
      descriptor proto.ret = .ok d ∧
      desc.toList = '(' :: ds.flatMap String.toList ++ ')' :: d.toList := by
  obtain ⟨ds, hds, h⟩ := bind_eq_ok_iff.1 h
  obtain ⟨d, hd, h⟩ := bind_eq_ok_iff.1 h
  cases h
  exact ⟨ds, d, mapM_eq_ok_iff.1 hds, hd, by simp [String.toList_join]⟩

/-- The descriptor of a method is a text of the widths of its parameters and of its result. -/
theorem methodType_of_methodDescriptor {proto : MethodProto}
    (hparams : ∀ t ∈ proto.params, t.Nameable) (hret : proto.ret ≠ .void → proto.ret.Nameable)
    (h : methodDescriptor proto = .ok desc) :
    MethodType desc.toList (proto.params.map Ty.width).sum proto.ret.width := by
  obtain ⟨ds, d, hds, hd, htext⟩ := methodDescriptor_eq_ok h
  rw [htext]
  refine .mk (fieldTypes_of_descriptors hparams hds) ?_
  by_cases hvoid : proto.ret = .void
  · rw [hvoid] at hd ⊢
    cases hd
    exact .void
  · exact .value (fieldType_of_descriptor (hret hvoid) hd)

/-- The descriptor of a method has the widths of its parameters and of its result. -/
theorem methodWidths_of_methodDescriptor {proto : MethodProto}
    (hparams : ∀ t ∈ proto.params, t.Nameable) (hret : proto.ret ≠ .void → proto.ret.Nameable)
    (h : methodDescriptor proto = .ok desc) :
    methodWidths desc = .ok ((proto.params.map Ty.width).sum, proto.ret.width) :=
  methodWidths_eq_ok (methodType_of_methodDescriptor hparams hret h)

end BytecodeLowering.Lowering
