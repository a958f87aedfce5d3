import BytecodeLowering.Lowering.Class
import BytecodeLowering.Proofs.Lowering.Failure
import Mathlib

/-!
# The methods of a class

Each method of a class is lowered for itself, and none is lost.

* `isPlaced_methodImage`: a method that cannot be lowered names itself, once.
* `methodOutcome`: what a single method adds to a class, its image or its failure.
* `lowerMethods_eq`, `lowerMethods_failFast`: the methods of a class are lowered one by one, with or
  without the failures of some of them.
* `lowerClass_methods`: an assembled class is put together from the classes that its methods make
  each for itself.
-/

namespace BytecodeLowering.Lowering

open Ir Machine

section Declarations

theorem own_elementConstant (c : Constant) : Own (elementConstant c) := by
  cases c with
  | classOf t => exact (own_descriptor t).map _
  | _ => first | exact .ok _ | exact .unsupported _

mutual

theorem own_elementValue : (v : AnnotationValue) → Own (elementValue v)
  | .const c => own_elementConstant c
  | .enumConst .. => .ok _
  | .classOf t => (own_descriptor t).map _
  | .array values => (own_elementValues values).map _
  | .nested _ elements => (own_namedElements elements).map _

theorem own_elementValues : (vs : List AnnotationValue) → Own (elementValues vs)
  | [] => .ok _
  | v :: vs => .bind (own_elementValue v) fun _ => .bind (own_elementValues vs) fun _ => .ok _

theorem own_namedElements :
    (es : List (String × AnnotationValue)) → Own (namedElements es)
  | [] => .ok _
  | (_, v) :: es => .bind (own_elementValue v) fun _ => .bind (own_namedElements es) fun _ =>
      .ok _

end

/-- Headers of methods fail for reasons of their own. -/
theorem own_methodHeader (m : Method) : Own (methodHeader m) :=
  .bind (own_methodDescriptor _) fun _ => .ok _

end Declarations

section Methods

variable (owner : ClassName) (options : Options) (m : Method)

/-- A method of a class that fails names itself, once, whatever it fails for. -/
theorem isPlaced_methodImage :
    FailsWith (LowerError.IsPlaced (methodTitle owner m))
      ((methodImage owner options m).mapError (.within (methodTitle owner m) none)) := by
  have hbare {e : LowerError} (he : e.IsOwn) :
      e.IsBare ∨ e.IsPlaced (methodTitle owner m) := .inl he.isDirect.isBare
  -- Only the lowering of the body names the method. What else fails is named from outside.
  have himage : FailsWith (fun e => e.IsBare ∨ e.IsPlaced (methodTitle owner m))
      (methodImage owner options m) := by
    refine .bind ((own_methodHeader m).mono fun _ => hbare) fun header => .ite ?_ ?_
    · refine .bind (.mapError fun _ _ => .inl nofun) fun buffer => ?_
      refine .bind ((isPlaced_lowerMethod owner m options _).mono fun _ => .inr) fun _ => .ok _
    · refine .bind (FailsWith.mono (fun _ => hbare) ?_) fun _ => .ok _
      cases m.annotationDefault with
      | none => exact .ok _
      | some v => exact .bind (own_elementValue v) fun _ => .ok _
  refine .mapError fun e he => ?_
  rcases himage e he with hbare | hplaced
  · exact hbare.isPlaced_within _ _
  · rw [hplaced.within_eq]
    exact hplaced

/-- What a method adds to its class: its image, or its failure. -/
def methodOutcome : List MethodImage × List MethodFailure :=
  match (methodImage owner options m).mapError (.within (methodTitle owner m) none) with
  | .ok image => ([image], [])
  | .error e => ([], [⟨methodTitle owner m, e⟩])

variable {owner options m}

theorem methodOutcome_of_ok {image : MethodImage}
    (h : (methodImage owner options m).mapError (LowerError.within (methodTitle owner m) none) =
      .ok image) :
    methodOutcome owner options m = ([image], []) := by
  rw [methodOutcome, h]

theorem methodOutcome_of_error {e : LowerError}
    (h : (methodImage owner options m).mapError (LowerError.within (methodTitle owner m) none) =
      .error e) :
    methodOutcome owner options m = ([], [⟨methodTitle owner m, e⟩]) := by
  rw [methodOutcome, h]

variable (owner options m)

/-- A method adds one thing to its class; a failure names the method once. -/
theorem methodOutcome_cases :
    (∃ image, methodOutcome owner options m = ([image], [])) ∨
      ∃ e, methodOutcome owner options m = ([], [⟨methodTitle owner m, e⟩]) ∧
        e.IsPlaced (methodTitle owner m) := by
  have hplaced := isPlaced_methodImage owner options m
  cases h : (methodImage owner options m).mapError
      (LowerError.within (methodTitle owner m) none) with
  | ok image => exact .inl ⟨image, methodOutcome_of_ok h⟩
  | error e => exact .inr ⟨e, methodOutcome_of_error h, hplaced e h⟩

variable {options}

/-- The methods of a class are lowered one by one, if those that fail are left out. -/
theorem lowerMethods_eq (hoptions : options.failFast = false) (ms : List Method) :
    lowerMethods owner options ms =
      .ok (ms.flatMap fun m => (methodOutcome owner options m).1,
        ms.flatMap fun m => (methodOutcome owner options m).2) := by
  induction ms with
  | nil => rfl
  | cons m ms ih =>
    rw [lowerMethods, ih, hoptions]
    split
    · rename_i image h
      simp only [List.flatMap_cons, methodOutcome_of_ok h]
      rfl
    · rename_i e h
      simp only [List.flatMap_cons, methodOutcome_of_error h]
      rfl

/-- If a method that fails makes its class fail, the first one does; and if none fails they are
lowered one by one. -/
theorem lowerMethods_failFast (hoptions : options.failFast = true) (ms : List Method) :
    lowerMethods owner options ms =
      match ms.flatMap fun m => (methodOutcome owner options m).2 with
      | [] => .ok (ms.flatMap fun m => (methodOutcome owner options m).1,
          ms.flatMap fun m => (methodOutcome owner options m).2)
      | failure :: _ => .error failure.error := by
  induction ms with
  | nil => rfl
  | cons m ms ih =>
    rw [lowerMethods, ih, hoptions]
    split
    · rename_i image h
      simp only [List.flatMap_cons, methodOutcome_of_ok h, List.nil_append]
      split <;> rfl
    · rename_i e h
      simp only [List.flatMap_cons, methodOutcome_of_error h]
      rfl

end Methods

/-- The class with the same header and fields and the given method alone. -/
def onlyMethod (c : Ir.Class) (m : Method) : Ir.Class :=
  { c with methods := [m] }

/-- What a class becomes that has a single method: the header and the fields are those of the class,
and the method contributes its image, or else one failure that carries its name and an error that
tells this name once. -/
structure IsPart (c : Ir.Class) (options : Options) (fields : List FieldDecl) (m : Method)
    (part : LoweredClass) : Prop where
  /-- It comes from the class with that method alone. -/
  lowered : lowerClass (onlyMethod c m) options = .ok part
  /-- It has the header of the class. -/
  header : part.image.header = classHeader c options
  /-- It has the fields of the class. -/
  fields : part.image.fields = fields
  /-- The method contributes one thing. -/
  outcome : (∃ image, part.image.methods = [image] ∧ part.failures = []) ∨
    ∃ e, part.image.methods = [] ∧ part.failures = [⟨methodTitle c.name m, e⟩] ∧
      e.IsPlaced (methodTitle c.name m)

/-- Puts classes together: their methods one behind the other, and likewise their failures. -/
def LoweredClass.gather (header : ClassHeader) (fields : List FieldDecl)
    (parts : List LoweredClass) : LoweredClass where
  image := ⟨header, fields, parts.flatMap fun part => part.image.methods⟩
  failures := parts.flatMap LoweredClass.failures

/-- The class if no method failed, and otherwise the error of the first one that did. -/
def LoweredClass.orFirstFailure (r : LoweredClass) : Lowered LoweredClass :=
  match r.failures with
  | [] => .ok r
  | failure :: _ => .error failure.error

section Classes

variable {c : Ir.Class} {options : Options} {fields : List FieldDecl}

/-- A class with the given fields and what one method adds to it. -/
def LoweredClass.ofMethod (c : Ir.Class) (options : Options) (fields : List FieldDecl)
    (m : Method) : LoweredClass where
  image := ⟨classHeader c options, fields, (methodOutcome c.name options m).1⟩
  failures := (methodOutcome c.name options m).2

/-- A class becomes the fields that it has, and what each of its methods adds. -/
theorem lowerClass_eq (hfields : c.fields.mapM fieldDecl = .ok fields)
    (hoptions : options.failFast = false) :
    lowerClass c options =
      .ok (LoweredClass.gather (classHeader c options) fields
        (c.methods.map (LoweredClass.ofMethod c options fields))) := by
  rw [lowerClass, hfields]
  change (lowerMethods c.name options c.methods >>= _) = _
  rw [lowerMethods_eq c.name hoptions, LoweredClass.gather, List.flatMap_map, List.flatMap_map]
  rfl

/-- The same, if a method that fails makes its class fail. -/
theorem lowerClass_failFast (hfields : c.fields.mapM fieldDecl = .ok fields)
    (hoptions : options.failFast = true) :
    lowerClass c options =
      (LoweredClass.gather (classHeader c options) fields
        (c.methods.map (LoweredClass.ofMethod c options fields))).orFirstFailure := by
  rw [lowerClass, hfields]
  change (lowerMethods c.name options c.methods >>= _) = _
  rw [lowerMethods_failFast c.name hoptions, LoweredClass.orFirstFailure, LoweredClass.gather,
    List.flatMap_map, List.flatMap_map]
  change _ = match c.methods.flatMap fun m => (methodOutcome c.name options m).2 with
    | [] => _
    | failure :: _ => _
  split
  · rfl
  · rfl

/-- What a method adds to its class is what it adds to one where it is the only method. -/
theorem isPart_ofMethod (hfields : c.fields.mapM fieldDecl = .ok fields)
    (hoptions : options.failFast = false) (m : Method) :
    IsPart c options fields m (LoweredClass.ofMethod c options fields m) where
  lowered := by
    rw [lowerClass_eq (c := onlyMethod c m) hfields hoptions, LoweredClass.gather]
    change Except.ok (⟨⟨_, _, (methodOutcome c.name options m).1 ++ []⟩,
      (methodOutcome c.name options m).2 ++ []⟩ : LoweredClass) = _
    rw [List.append_nil, List.append_nil]
    rfl
  header := rfl
  fields := rfl
  outcome := by
    rcases methodOutcome_cases c.name options m with ⟨image, h⟩ | ⟨e, h, he⟩
    · exact .inl ⟨image, congrArg Prod.fst h, congrArg Prod.snd h⟩
    · exact .inr ⟨e, congrArg Prod.fst h, congrArg Prod.snd h, he⟩

/-- Methods are lowered independently and none is lost: an assembled class consists of what its
methods become each in a class of its own, in their order; and if methods that fail make the class
fail, it fails with the error of the first one, or else is the same. -/
theorem lowerClass_methods (c : Ir.Class) (options : Options)
    (hfields : ∀ f ∈ c.fields, ∃ d, fieldDecl f = .ok d) :
    ∃ fields parts, List.Forall₂ (fun f d => fieldDecl f = .ok d) c.fields fields ∧
      List.Forall₂ (IsPart c { options with failFast := false } fields) c.methods parts ∧
      lowerClass c { options with failFast := false } =
        .ok (LoweredClass.gather (classHeader c options) fields parts) ∧
      lowerClass c { options with failFast := true } =
        (LoweredClass.gather (classHeader c options) fields parts).orFirstFailure := by
  obtain ⟨fields, hdecls⟩ : ∃ fields, c.fields.mapM fieldDecl = .ok fields := by
    cases h : c.fields.mapM fieldDecl with
    | ok fields => exact ⟨fields, rfl⟩
    | error e =>
      obtain ⟨f, hf, he⟩ := exists_of_mapM_eq_error h
      obtain ⟨d, hd⟩ := hfields f hf
      rw [hd] at he
      cases he
  refine ⟨fields,
    c.methods.map (LoweredClass.ofMethod c { options with failFast := false } fields),
    mapM_eq_ok_iff.1 hdecls, ?_, lowerClass_eq hdecls rfl, ?_⟩
  · rw [List.forall₂_map_right_iff, List.forall₂_same]
    exact fun m _ => isPart_ofMethod hdecls rfl m
  · -- Whether methods may fail does not change what a single method becomes.
    exact lowerClass_failFast hdecls rfl

end Classes

section Trio

/-- The body of a method that returns one. -/
def oneBody : Body where
  locals := []
  stmts := [⟨⟨0⟩, none, .return (.const (.int 1))⟩]
  flow := ⟨[⟨⟨0⟩, [⟨0⟩], [], []⟩]⟩

/-- The body of a method that stops in a debugger. -/
def haltBody : Body where
  locals := []
  stmts := [⟨⟨0⟩, none, .breakpoint⟩, ⟨⟨1⟩, none, .returnVoid⟩]
  flow := ⟨[⟨⟨0⟩, [⟨0⟩, ⟨1⟩], [], []⟩]⟩

/-- A class with a constant, an abstract method, a method that fails in its header, one that has
code, and one that fails in a statement. -/
def trioClass : Ir.Class where
  name := ⟨"A"⟩
  superClass := none
  interfaces := []
  modifiers := [.pub]
  fields := [⟨"MAX", .prim .int, [.static, .final], some (.int 10)⟩]
  methods := [⟨"area", [.abstract], [], .prim .double, [], none, none⟩,
    ⟨"any", [.abstract], [.unknown], .void, [], none, none⟩,
    ⟨"one", [.static], [], .prim .int, [], some oneBody, none⟩,
    ⟨"halt", [.static], [], .void, [], some haltBody, none⟩]

/-- What the methods of `trioClass` become each: the first and the third one stay. -/
def trioOutcomes : List (List MethodImage × List MethodFailure) :=
  [([⟨⟨0x400, "area", "()D", []⟩, none, none⟩], []),
    ([], [⟨"A.any", .inMethod "A.any" none (.unsupported (.noDescriptor .unknown))⟩]),
    ([⟨⟨0x8, "one", "()I", []⟩, some ⟨[.simple .iconst1, .simple .ireturn], [], ⟨1, 0⟩⟩, none⟩],
      []),
    ([], [⟨"A.halt", .inMethod "A.halt" (some "breakpoint") (.unsupported .breakpoint)⟩])]

/-- `lowerClass_methods` at a class of which two methods fail, one in its header and one in a
statement. -/
theorem trio_methods : (∀ f ∈ trioClass.fields, ∃ d, fieldDecl f = .ok d) ∧
    ∃ parts,
      List.Forall₂
        (IsPart trioClass { failFast := false } [⟨0x18, "MAX", "I", some (.int 10)⟩])
        trioClass.methods parts ∧
      parts.map (fun part => (part.image.methods, part.failures)) = trioOutcomes ∧
      lowerClass trioClass { failFast := false } =
        .ok ⟨⟨classHeader trioClass {}, [⟨0x18, "MAX", "I", some (.int 10)⟩],
          trioOutcomes.flatMap Prod.fst⟩, trioOutcomes.flatMap Prod.snd⟩ ∧
      lowerClass trioClass { failFast := true } =
        .error (.inMethod "A.any" none (.unsupported (.noDescriptor .unknown))) := by
  have hfields : ∀ f ∈ trioClass.fields, ∃ d, fieldDecl f = .ok d := by
    intro f hf
    obtain rfl := List.mem_singleton.1 hf
    exact ⟨_, rfl⟩
  obtain ⟨fields, parts, hdecls, hparts, hall, hfast⟩ := lowerClass_methods trioClass {} hfields
  obtain rfl : fields = [⟨0x18, "MAX", "I", some (.int 10)⟩] := by
    have hdecl : fieldDecl ⟨"MAX", .prim .int, [.static, .final], some (.int 10)⟩ =
      .ok ⟨0x18, "MAX", "I", some (.int 10)⟩ := by cbv
    rcases hdecls with _ | ⟨h, hnil⟩
    cases hnil
    cases hdecl.symm.trans h
    rfl
  have houtcomes : parts.map (fun part => (part.image.methods, part.failures)) = trioOutcomes := by
    have hsingle : trioClass.methods.map (fun m =>
        (lowerClass (onlyMethod trioClass m) { failFast := false }).map fun part =>
          (part.image.methods, part.failures)) = trioOutcomes.map .ok := by cbv
    have hlowered : trioClass.methods.map (fun m =>
        (lowerClass (onlyMethod trioClass m) { failFast := false }).map fun part =>
          (part.image.methods, part.failures)) =
        (parts.map fun part => (part.image.methods, part.failures)).map .ok := by
      rw [List.map_map, ← List.forall₂_eq_eq_eq, List.forall₂_map_left_iff,
        List.forall₂_map_right_iff]
      refine hparts.imp fun m part hpart => ?_
      rw [hpart.lowered]
      rfl
    exact List.map_injective_iff.2 (fun _ _ => Except.ok.inj) (hlowered.symm.trans hsingle)
  have hgather : LoweredClass.gather (classHeader trioClass {})
      [⟨0x18, "MAX", "I", some (.int 10)⟩] parts =
        ⟨⟨classHeader trioClass {}, [⟨0x18, "MAX", "I", some (.int 10)⟩],
          trioOutcomes.flatMap Prod.fst⟩, trioOutcomes.flatMap Prod.snd⟩ := by
    rw [← houtcomes, List.flatMap_map, List.flatMap_map]
    rfl
  exact ⟨hfields, parts, hparts, houtcomes, hgather ▸ hall, hfast.trans (by rw [hgather]; rfl)⟩

end Trio

end BytecodeLowering.Lowering
