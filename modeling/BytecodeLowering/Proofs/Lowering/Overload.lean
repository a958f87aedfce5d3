import BytecodeLowering.Proofs.Ir.Spelling
import BytecodeLowering.Proofs.Lowering.Signature

/-!
# Descriptors of overloads

Methods with different parameters or results have different descriptors: a descriptor can be read
back, as no type has a descriptor that starts like that of another one.

* `Ty.Legible`: the types that can be told from their descriptors.
* `typeAt?`, `typeAt?_append`: the type whose descriptor stands in front of other text.
* `descriptors_inj`: the types whose descriptors stand one behind the other.
* `methodDescriptor_inj`: the parameters and the result of a method.
-/

namespace BytecodeLowering

open Ir Lowering

/-- The class that a type names, itself or as the base of an array, if it names one. -/
def Ir.Ty.class? : Ty → Option ClassName
  | .object n => some n
  | .array base _ => base.class?
  | .prim _ | .void | .null | .unknown => none

/-- A type that is read from some text, and whose class, if it names one, has neither a slash nor a
semicolon in its name. -/
structure Ir.Ty.Legible (t : Ty) : Prop where
  /-- Some text spells the type. -/
  spelled : ∃ text, Ty.parse text = .ok t
  /-- No slash of the internal form stands for itself. -/
  slash : ∀ n, t.class? = some n → '/' ∉ n.text.toList
  /-- The name goes up to the semicolon behind it. -/
  semicolon : ∀ n, t.class? = some n → ';' ∉ n.text.toList

namespace Lowering

/-- The type whose descriptor stands at the start of a text, and the text behind it. -/
def typeAt? : List Char → Option (Ty × List Char)
  | '[' :: cs => (typeAt? cs).bind fun (t, behind) => t.arrayOf?.map fun t => (t, behind)
  | 'L' :: cs =>
    some (.object ⟨String.ofList ((cs.takeWhile (· ≠ ';')).map dot)⟩, (cs.dropWhile (· ≠ ';')).tail)
  | 'V' :: cs => some (.void, cs)
  | c :: cs => (Prim.all.find? fun p => (primDescriptor p).toList = [c]).map fun p => (.prim p, cs)
  | [] => none

variable {t : Ty} {desc : String} {rest : List Char}

/-- The letter of a primitive type in front of other text is read as the type. -/
theorem typeAt?_primDescriptor (p : Prim) (rest : List Char) :
    typeAt? ((primDescriptor p).toList ++ rest) = some (.prim p, rest) := by
  cases p <;> rfl

/-- The descriptor of a class in front of other text is read as the class. -/
theorem typeAt?_classDescriptor {n : ClassName} (hslash : '/' ∉ n.text.toList)
    (hsemicolon : ';' ∉ n.text.toList) (rest : List Char) :
    typeAt? ((classDescriptor n).toList ++ rest) = some (.object n, rest) := by
  have htext : (classDescriptor n).toList ++ rest =
      'L' :: (n.internalName.toList ++ ';' :: rest) := by
    simp [classDescriptor]
  have hname : ∀ c ∈ n.internalName.toList, decide (c ≠ ';') = true := fun c hc =>
    decide_eq_true fun heq => notMem_internalName hsemicolon (heq ▸ hc)
  rw [htext, typeAt?, List.takeWhile_append_of_pos hname, List.dropWhile_append_of_pos hname]
  simp [map_dot_internalName hslash]

/-- Brackets in front of the descriptor of a type that is no array are an array over it. -/
theorem typeAt?_brackets {base : Ty} (hbase : base.arrayOf? = some (.array base 1)) {cs : List Char}
    (h : typeAt? cs = some (base, rest)) {n : Nat} (hn : n < 255) :
    typeAt? (List.replicate (n + 1) '[' ++ cs) = some (.array base (n + 1), rest) := by
  -- Each bracket adds a dimension, and there are few enough of them for the array to have them all.
  induction n with
  | zero =>
    change typeAt? ('[' :: cs) = _
    simp [typeAt?, h, hbase]
  | succ n ih =>
    rw [List.replicate_succ, List.cons_append, typeAt?, ih (Nat.lt_of_succ_lt hn)]
    simp [Ty.arrayOf?, hn]

/-- The descriptor of a type in front of other text is read as the type. -/
theorem typeAt?_append (ht : t.Legible) (h : descriptor t = .ok desc) (rest : List Char) :
    typeAt? (desc.toList ++ rest) = some (t, rest) := by
  obtain ⟨⟨text, hparse⟩, hslash, hsemicolon⟩ := ht
  have hvalid := Ty.valid_of_parse hparse
  cases t with
  | prim p =>
    cases h
    exact typeAt?_primDescriptor p rest
  | void =>
    cases h
    rfl
  | null => cases h
  | unknown => cases h
  | object n =>
    cases h
    exact typeAt?_classDescriptor (hslash n rfl) (hsemicolon n rfl) rest
  | array base dims =>
    obtain ⟨d, hd, rfl⟩ := map_eq_ok_iff.1 h
    rw [toList_brackets_append, List.append_assoc]
    -- Only primitive types and classes are the bases of arrays.
    cases base with
    | prim p =>
      cases hd
      obtain ⟨n, rfl⟩ := Nat.exists_eq_add_of_le' hvalid.1
      exact typeAt?_brackets rfl (typeAt?_primDescriptor p rest) hvalid.2
    | object n =>
      cases hd
      obtain ⟨k, rfl⟩ := Nat.exists_eq_add_of_le' hvalid.2.1
      exact typeAt?_brackets rfl (typeAt?_classDescriptor (hslash n rfl) (hsemicolon n rfl) rest)
        hvalid.2.2
    | _ => cases hvalid

/-- Types whose descriptors stand one behind the other up to a closing parenthesis are told from
that text. -/
theorem descriptors_inj {ts ts' : List Ty} {ds ds' : List String} {rest rest' : List Char}
    (hts : ∀ t ∈ ts, t.Legible) (hts' : ∀ t ∈ ts', t.Legible)
    (h : List.Forall₂ (fun t d => descriptor t = .ok d) ts ds)
    (h' : List.Forall₂ (fun t d => descriptor t = .ok d) ts' ds')
    (heq : ds.flatMap String.toList ++ ')' :: rest = ds'.flatMap String.toList ++ ')' :: rest') :
    ts = ts' ∧ rest = rest' := by
  induction h generalizing ts' ds' with
  | nil =>
    -- No type starts with a closing parenthesis.
    cases h' with
    | nil => exact ⟨rfl, (List.cons.inj heq).2⟩
    | @cons t' d' ts' ds' hd' _ =>
      rw [List.flatMap_cons, List.append_assoc] at heq
      have hread := typeAt?_append (hts' t' List.mem_cons_self) hd'
        (ds'.flatMap String.toList ++ ')' :: rest')
      rw [← heq] at hread
      cases hread
  | @cons t d ts ds hd _ ih =>
    rw [List.flatMap_cons, List.append_assoc] at heq
    have hread := typeAt?_append (hts t List.mem_cons_self) hd
      (ds.flatMap String.toList ++ ')' :: rest)
    cases h' with
    | nil =>
      rw [heq] at hread
      cases hread
    | @cons t' d' ts' ds' hd' hds' =>
      -- Both texts start with one and the same type, and the texts behind it are one as well.
      rw [List.flatMap_cons, List.append_assoc] at heq
      rw [heq, typeAt?_append (hts' t' List.mem_cons_self) hd'] at hread
      obtain ⟨rfl, hbehind⟩ := Prod.mk.inj (Option.some.inj hread)
      obtain ⟨rfl, hrest⟩ := ih (fun t ht => hts t (List.mem_cons_of_mem _ ht))
        (fun t ht => hts' t (List.mem_cons_of_mem _ ht)) hds' hbehind.symm
      exact ⟨rfl, hrest⟩

/-- Methods with one descriptor have the same parameters and the same result, if these can be told
from their descriptors. -/
theorem methodDescriptor_inj {p q : MethodProto} (hp : ∀ t ∈ p.ret :: p.params, t.Legible)
    (hq : ∀ t ∈ q.ret :: q.params, t.Legible) (h : methodDescriptor p = .ok desc)
    (h' : methodDescriptor q = .ok desc) : p = q := by
  obtain ⟨hpret, hpparams⟩ := List.forall_mem_cons.1 hp
  obtain ⟨hqret, hqparams⟩ := List.forall_mem_cons.1 hq
  obtain ⟨ds, d, hds, hd, htext⟩ := methodDescriptor_eq_ok h
  obtain ⟨ds', d', hds', hd', htext'⟩ := methodDescriptor_eq_ok h'
  -- Behind the parameters nothing but the result is left.
  obtain ⟨hparams, hrest⟩ := descriptors_inj hpparams hqparams hds hds'
    (List.cons.inj (htext.symm.trans htext')).2
  have hread := typeAt?_append hpret hd []
  rw [hrest, typeAt?_append hqret hd' []] at hread
  obtain ⟨hret, -⟩ := Prod.mk.inj (Option.some.inj hread)
  obtain ⟨params, ret⟩ := p
  obtain ⟨params', ret'⟩ := q
  exact congrArg₂ MethodProto.mk hparams hret.symm

section Tangle

/-- A method whose class names hold what has a meaning elsewhere in a descriptor. -/
def tangle : MethodProto :=
  ⟨[.array (.object ⟨"a.(I)V"⟩) 2, .prim .long, .object ⟨"[J"⟩], .void⟩

/-- `methodDescriptor_inj` at `tangle` and the method whose parameters are read from texts. -/
theorem tangle_descriptor_inj :
    ∃ ts, ["a.(I)V [] []", " long", "[J"].mapM Ty.parse = .ok ts ∧
      (∀ t ∈ Ty.void :: ts, t.Legible) ∧
      methodDescriptor ⟨ts, .void⟩ = .ok "([[La/(I)V;JL[J;)V" ∧
      methodDescriptor tangle = .ok "([[La/(I)V;JL[J;)V" ∧ tangle = ⟨ts, .void⟩ := by
  have hread : ["a.(I)V [] []", " long", "[J"].mapM Ty.parse = .ok tangle.params := by
    decide +kernel
  have hdesc : methodDescriptor tangle = .ok "([[La/(I)V;JL[J;)V" := by decide +kernel
  have hlegible : ∀ t ∈ tangle.ret :: tangle.params, t.Legible := by
    intro t ht
    refine ⟨?_, ?_, ?_⟩
    · rcases List.mem_cons.1 ht with rfl | ht
      · exact ⟨"void", by decide +kernel⟩
      · obtain ⟨text, -, htext⟩ := exists_left_of_mem (mapM_eq_ok_iff.1 hread) ht
        exact ⟨text, htext⟩
    all_goals
      simp only [tangle, List.mem_cons, List.not_mem_nil, or_false] at ht
      rcases ht with rfl | rfl | rfl | rfl <;> simp [Ty.class?]
  exact ⟨_, hread, hlegible, hdesc, hdesc, methodDescriptor_inj hlegible hlegible hdesc hdesc⟩

end Tangle

end Lowering

end BytecodeLowering
