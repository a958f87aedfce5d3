import BytecodeLowering.Ir.Read
import BytecodeLowering.Ir.Write
import BytecodeLowering.Proofs.Ir.Spelling
import BytecodeLowering.Proofs.Json.Restore

/-!
# Reading written expressions

The parts of statements are read back from their written form: types and locals, references to
members, constants that are no floating-point values, and the expressions that are made of them.

* `Constant.isFloating`: the constants whose written form may not keep their value.
* `Operand.constant?` and `constants`: the constants of the parts of statements.
* `reads_toJson`: for each part that a reader may give, the reader gives it for its written form.
-/

namespace BytecodeLowering.Ir

open Json Decoder Fields

section Constants

/-- Whether a constant is a floating-point value. -/
def Constant.isFloating : Constant → Bool
  | float _ | double _ => true
  | _ => false

/-- Constants whose written form keeps their value. -/
def Exact (ks : List Constant) : Prop :=
  ∀ k ∈ ks, k.isFloating = false

/-- The constant that an operand is, if it is one. -/
def Operand.constant? : Operand → Option Constant
  | var _ => none
  | const k => some k

/-- The constants among some operands. -/
def constantsOf (ops : List Operand) : List Constant :=
  ops.filterMap Operand.constant?

/-- The constants of a condition. -/
def Condition.constants (c : Condition) : List Constant :=
  constantsOf [c.lhs, c.rhs]

/-- The constants of an array access. -/
def ArrayRef.constants (a : ArrayRef) : List Constant :=
  constantsOf [a.index]

/-- The constants of a call. -/
def Invocation.constants (i : Invocation) : List Constant :=
  constantsOf (i.args ++ i.bootstrapArgs)

/-- The constants of an expression. -/
def Expr.constants : Expr → List Constant
  | operand op | neg op | cast op _ | instanceOf op _ | length op | newArray _ op =>
    constantsOf [op]
  | binary _ lhs rhs => constantsOf [lhs, rhs]
  | newMultiArray _ sizes => constantsOf sizes
  | invoke call => call.constants
  | element a => a.constants
  | new _ | field _ | phi _ => []

/-- The constants of a place. -/
def Place.constants : Place → List Constant
  | element a => a.constants
  | var _ | field _ => []

theorem Exact.of_append {ks ks' : List Constant} (h : Exact (ks ++ ks')) : Exact ks ∧ Exact ks' :=
  List.forall_mem_append.1 h

/-- Of exact operands every constant is exact. -/
theorem Exact.of_mem {ops : List Operand} (h : Exact (constantsOf ops)) {op : Operand}
    (hop : op ∈ ops) : Exact op.constant?.toList := fun k hk =>
  h k (List.mem_filterMap.2 ⟨op, hop, Option.mem_toList.1 hk⟩)

end Constants

section Members

theorem ClassName.reads_toJson (n : ClassName) : reader.Reads n.toJson n :=
  (reads_text n.text).map _

/-- Every type text is read back as the same type. -/
theorem Ty.reads_toJson {t : Ty} (h : reader.Yields t) : reader.Reads t.toJson t := by
  obtain ⟨s, -, hs⟩ := h.of_refine
  have hparse := Ty.parse_render (Ty.valid_of_parse (mapError_eq_ok_iff.1 hs))
  exact (reads_text t.render).refine (mapError_eq_ok_iff.2 hparse)

theorem Ty.reads_list {ts : List Ty} (h : ∀ t ∈ ts, Ty.reader.Yields t) :
    Ty.reader.list.Reads (.ofList Ty.toJson ts) ts :=
  Decoder.reads_list fun t ht => Ty.reads_toJson (h t ht)

theorem Role.reads_name (r : Role) : reader.Reads (.ofString r.name) r :=
  reads_word (by cases r <;> rfl)

theorem Local.reads_toJson {l : Local} (h : reader.Yields l) : reader.Reads l.toJson l := by
  obtain ⟨_, h₁, role, -, rfl⟩ := h.of_record.of_seq
  obtain ⟨_, h₂, ty, hty, rfl⟩ := h₁.of_seq
  obtain ⟨name, -, rfl⟩ := h₂.of_map
  -- The role is written whether it was read or not.
  dsimp only
  generalize role.getD (Role.ofName name) = r
  have hrole : Role.reader.optional.Reads (.ofString r.name) (some r) :=
    reads_some nofun r.reads_name
  change reader.Reads _
    ((fun role : Option Role => (⟨name, ty, role.getD (Role.ofName name)⟩ : Local)) (some r))
  exact reads_record rfl <|
    (((reads_required rfl (reads_text name)).map _).seq
      (reads_required rfl (Ty.reads_toJson hty.of_required))).seq (reads_defaulted rfl hrole)

theorem Local.reads_list {ls : List Local} (h : ∀ l ∈ ls, Local.reader.Yields l) :
    Local.reader.list.Reads (.ofList Local.toJson ls) ls :=
  Decoder.reads_list fun l hl => Local.reads_toJson (h l hl)

theorem FieldSignature.reads_toJson {f : FieldSignature} (h : reader.Yields f) :
    reader.Reads f.toJson f := by
  obtain ⟨_, h₁, ty, hty, rfl⟩ := h.of_record.of_seq
  obtain ⟨_, h₂, name, -, rfl⟩ := h₁.of_seq
  obtain ⟨owner, -, rfl⟩ := h₂.of_map
  exact reads_record rfl <|
    (((reads_required rfl owner.reads_toJson).map _).seq
      (reads_required rfl (reads_text name))).seq
        (reads_required rfl (Ty.reads_toJson hty.of_required))

/-- The values of a list that may be left out. -/
theorem yields_of_defaulted {α : Type} {d : Reader α} {name : String} {xs : List α}
    (h : (defaulted name [] d.list).Yields xs) : ∀ x ∈ xs, d.Yields x := by
  rcases h.of_defaulted with rfl | h
  · exact fun x hx => absurd hx List.not_mem_nil
  · exact h.of_list

theorem MethodSignature.reads_toJson {m : MethodSignature} (h : reader.Yields m) :
    reader.Reads m.toJson m := by
  obtain ⟨_, h₁, ret, hret, rfl⟩ := h.of_record.of_seq
  obtain ⟨_, h₂, params, hparams, rfl⟩ := h₁.of_seq
  obtain ⟨_, h₃, name, -, rfl⟩ := h₂.of_seq
  obtain ⟨owner, -, rfl⟩ := h₃.of_map
  exact reads_record rfl <|
    ((((reads_required rfl owner.reads_toJson).map _).seq
      (reads_required rfl (reads_text name))).seq
        (reads_defaulted rfl (Ty.reads_list (yields_of_defaulted hparams)))).seq
          (reads_required rfl (Ty.reads_toJson hret.of_required))

theorem MethodProto.reads_toJson {p : MethodProto} (h : reader.Yields p) :
    reader.Reads p.toJson p := by
  obtain ⟨_, h₁, ret, hret, rfl⟩ := h.of_record.of_seq
  obtain ⟨params, hparams, rfl⟩ := h₁.of_map
  exact reads_record rfl <|
    ((reads_defaulted rfl (Ty.reads_list (yields_of_defaulted hparams))).map _).seq
      (reads_required rfl (Ty.reads_toJson hret.of_required))

theorem HandleKind.reads_name (k : HandleKind) : reader.Reads (.ofString k.name) k :=
  reads_word (by cases k <;> rfl)

theorem HandleTarget.reads_toJson {t : HandleTarget} (h : reader.Yields t) :
    reader.Reads t.toJson t := by
  obtain ⟨key, d, hd, ht⟩ := h.of_payload
  split at hd <;> cases hd
  · obtain ⟨f, hf, rfl⟩ := ht.of_map
    exact reads_choice rfl rfl ((FieldSignature.reads_toJson hf).map _)
  · obtain ⟨m, hm, rfl⟩ := ht.of_map
    exact reads_choice rfl rfl ((MethodSignature.reads_toJson hm).map _)

/-- A method handle is read back, however its kind was read. -/
theorem MethodHandle.reads_toJson {kind : Reader HandleKind} {h : MethodHandle}
    (hyields : (readerOf kind).Yields h) : reader.Reads h.toJson h := by
  obtain ⟨_, h₁, isInterface, -, rfl⟩ := hyields.of_record.of_seq
  obtain ⟨_, h₂, target, htarget, rfl⟩ := h₁.of_seq
  obtain ⟨k, -, rfl⟩ := h₂.of_map
  exact reads_record rfl <|
    (((reads_required rfl k.reads_name).map _).seq
      (reads_required rfl (HandleTarget.reads_toJson htarget.of_required))).seq
        (reads_defaulted rfl (reads_bool isInterface))

end Members

section Operands

/-- What is said about a constant: its kind is that of a content that was read. -/
theorem Constant.yields_of_inr {d : Reader Constant} {k : Constant}
    (h : (Sum.inr d : Constant ⊕ Reader Constant) = .inl k ∨
      ∃ d', (Sum.inr d : Constant ⊕ Reader Constant) = .inr d' ∧ d'.Yields k) : d.Yields k := by
  rcases h with h | ⟨d', h, hk⟩ <;> cases h
  exact hk

/-- A constant is read from its kind and its content. -/
theorem Constant.reads_content {name : String} {kind : Bool → Constant ⊕ Reader Constant}
    {d : Reader Constant} {j : Json} {k : Constant}
    (hkind : kindReader.Reads (.ofString name) kind) (hd : kind false = .inr d)
    (h : d.Reads j k) : reader.Reads (.record [("kind", .ofString name), ("value", j)]) k :=
  reads_tagged (by decide) hkind hd h

/-- A constant that is no floating-point value is read back. -/
theorem Constant.reads_toJson {k : Constant} (h : reader.Yields k) (hk : k.isFloating = false) :
    reader.Reads k.toJson k := by
  obtain ⟨kind, kept, hkind, hvalue⟩ := h.of_tagged
  obtain ⟨s, hs⟩ := hkind.of_words
  split at hs <;> cases hs
  -- The null constant is the one without content.
  case h_8 =>
    rcases hvalue with h | ⟨d, h, -⟩ <;> cases h
    exact reads_bare (by decide) (reads_word rfl) rfl
  all_goals replace hvalue := yields_of_inr hvalue
  case h_1 =>
    obtain ⟨v, -, rfl⟩ := hvalue.of_map
    exact reads_content (reads_word rfl) rfl ((reads_int32 v).map _)
  case h_2 =>
    obtain ⟨v, -, rfl⟩ := hvalue.of_map
    exact reads_content (reads_word rfl) rfl ((reads_int64 v).map _)
  -- The floating-point constants are left out.
  case h_3 | h_4 =>
    obtain ⟨v, -, rfl⟩ := hvalue.of_map
    cases hk
  case h_5 =>
    obtain ⟨b, -, rfl⟩ := hvalue.of_map
    exact reads_content (reads_word rfl) rfl ((reads_bool b).map _)
  case h_6 =>
    obtain ⟨s, -, rfl⟩ := hvalue.of_map
    exact reads_content (reads_word rfl) rfl ((reads_text s).map _)
  case h_7 =>
    obtain ⟨t, ht, rfl⟩ := hvalue.of_map
    exact reads_content (reads_word rfl) rfl ((Ty.reads_toJson ht).map _)
  case h_9 =>
    obtain ⟨handle, hhandle, rfl⟩ := hvalue.of_map
    have hreads : MethodHandle.reader.Reads handle.toJson handle := by
      -- The kind of a handle may have been read more loosely than it is written.
      split at hhandle
      · exact MethodHandle.reads_toJson hhandle
      · exact MethodHandle.reads_toJson hhandle
    exact reads_content (reads_word rfl) rfl (hreads.map _)
  case h_10 =>
    obtain ⟨p, hp, rfl⟩ := hvalue.of_map
    exact reads_content (reads_word rfl) rfl ((MethodProto.reads_toJson hp).map _)

/-- An operand that is no floating-point value is read back. -/
theorem Operand.reads_toJson {op : Operand} (h : reader.Yields op)
    (hop : Exact op.constant?.toList) : reader.Reads op.toJson op := by
  obtain ⟨key, d, hd, hyields⟩ := h.of_payload
  split at hd <;> cases hd
  · obtain ⟨l, hl, rfl⟩ := hyields.of_map
    exact reads_choice rfl rfl ((Local.reads_toJson hl).map _)
  · obtain ⟨k, hk, rfl⟩ := hyields.of_map
    have hexact := hop k (Option.mem_toList.2 rfl)
    exact reads_choice rfl rfl ((Constant.reads_toJson hk hexact).map _)

/-- A list of operands without floating-point values is read back. -/
theorem Operand.reads_list {ops : List Operand} (h : ∀ op ∈ ops, Operand.reader.Yields op)
    (hops : Exact (constantsOf ops)) : Operand.reader.list.Reads (operandsJson ops) ops :=
  Decoder.reads_list fun op hop => Operand.reads_toJson (h op hop) (hops.of_mem hop)

end Operands

section Accesses

theorem BinOp.reads_name (op : BinOp) : reader.Reads (.ofString op.name) op :=
  reads_word (by cases op <;> rfl)

theorem CmpOp.reads_name (op : CmpOp) : reader.Reads (.ofString op.name) op :=
  reads_word (by cases op <;> rfl)

theorem Condition.reads_toJson {c : Condition} (h : reader.Yields c) (hc : Exact c.constants) :
    reader.Reads c.toJson c := by
  obtain ⟨_, h₁, rhs, hrhs, rfl⟩ := h.of_record.of_seq
  obtain ⟨_, h₂, lhs, hlhs, rfl⟩ := h₁.of_seq
  obtain ⟨op, -, rfl⟩ := h₂.of_map
  exact reads_record rfl <|
    (((reads_required rfl op.reads_name).map _).seq
      (reads_required rfl (Operand.reads_toJson hlhs.of_required (hc.of_mem (by simp))))).seq
        (reads_required rfl (Operand.reads_toJson hrhs.of_required (hc.of_mem (by simp))))

theorem FieldRef.reads_toJson {f : FieldRef} (h : reader.Yields f) : reader.Reads f.toJson f := by
  obtain ⟨key, d, hd, hf⟩ := h.of_payload
  split at hd <;> cases hd
  · -- Fields of objects, and static fields.
    obtain ⟨_, h₁, field, hfield, rfl⟩ := hf.of_record.of_seq
    obtain ⟨base, hbase, rfl⟩ := h₁.of_map
    exact reads_choice rfl rfl <| reads_record rfl <|
      ((reads_required rfl (Local.reads_toJson hbase.of_required)).map _).seq
        (reads_required rfl (FieldSignature.reads_toJson hfield.of_required))
  · obtain ⟨field, hfield, rfl⟩ := hf.of_record.of_map
    exact reads_choice rfl rfl <| reads_record rfl <|
      (reads_required rfl (FieldSignature.reads_toJson hfield.of_required)).map _

theorem ArrayRef.reads_toJson {a : ArrayRef} (h : reader.Yields a) (ha : Exact a.constants) :
    reader.Reads a.toJson a := by
  obtain ⟨_, h₁, index, hindex, rfl⟩ := h.of_record.of_seq
  obtain ⟨base, hbase, rfl⟩ := h₁.of_map
  exact reads_record rfl <|
    ((reads_required rfl (Local.reads_toJson hbase.of_required)).map _).seq
      (reads_required rfl (Operand.reads_toJson hindex.of_required (ha.of_mem (by simp))))

/-- A call on a receiver is read back, whatever kind of call it is. -/
theorem Invocation.reads_receiverJson
    {make : Local → MethodSignature → List Operand → Invocation} {i : Invocation}
    (h : (onReceiver make).Yields i) :
    ∃ base method args, i = make base method args ∧
      (Exact (constantsOf args) → (onReceiver make).Reads (receiverJson base method args) i) := by
  obtain ⟨_, h₁, args, hargs, rfl⟩ := h.of_record.of_seq
  obtain ⟨_, h₂, method, hmethod, rfl⟩ := h₁.of_seq
  obtain ⟨base, hbase, rfl⟩ := h₂.of_map
  refine ⟨base, method, args, rfl, fun hexact => ?_⟩
  exact reads_record rfl <|
    (((reads_required rfl (Local.reads_toJson hbase.of_required)).map _).seq
      (reads_required rfl (MethodSignature.reads_toJson hmethod.of_required))).seq
        (reads_defaulted rfl (Operand.reads_list (yields_of_defaulted hargs) hexact))

theorem Invocation.reads_toJson {i : Invocation} (h : reader.Yields i) (hi : Exact i.constants) :
    reader.Reads i.toJson i := by
  obtain ⟨hargs, hbootstrap⟩ : Exact (constantsOf i.args) ∧ Exact (constantsOf i.bootstrapArgs) :=
    Exact.of_append (List.filterMap_append ▸ hi)
  obtain ⟨key, d, hd, hyields⟩ := h.of_payload
  split at hd <;> cases hd
  · -- Static calls.
    obtain ⟨_, h₁, args, hargs', rfl⟩ := hyields.of_record.of_seq
    obtain ⟨method, hmethod, rfl⟩ := h₁.of_map
    exact reads_choice rfl rfl <| reads_record rfl <|
      ((reads_required rfl (MethodSignature.reads_toJson hmethod.of_required)).map _).seq
        (reads_defaulted rfl (Operand.reads_list (yields_of_defaulted hargs') hargs))
  · -- The three calls with a receiver.
    obtain ⟨base, method, args, rfl, hreads⟩ := reads_receiverJson hyields
    exact reads_choice rfl rfl (hreads hargs)
  · obtain ⟨base, method, args, rfl, hreads⟩ := reads_receiverJson hyields
    exact reads_choice rfl rfl (hreads hargs)
  · obtain ⟨base, method, args, rfl, hreads⟩ := reads_receiverJson hyields
    exact reads_choice rfl rfl (hreads hargs)
  · -- Dynamic calls.
    obtain ⟨_, h₁, args, hargs', rfl⟩ := hyields.of_record.of_seq
    obtain ⟨_, h₂, method, hmethod, rfl⟩ := h₁.of_seq
    obtain ⟨_, h₃, bootstrapArgs, hbootstrap', rfl⟩ := h₂.of_seq
    obtain ⟨boot, hboot, rfl⟩ := h₃.of_map
    exact reads_choice rfl rfl <| reads_record rfl <|
      ((((reads_required rfl (MethodSignature.reads_toJson hboot.of_required)).map _).seq
        (reads_defaulted rfl (Operand.reads_list (yields_of_defaulted hbootstrap') hbootstrap))).seq
          (reads_required rfl (MethodSignature.reads_toJson hmethod.of_required))).seq
            (reads_defaulted rfl (Operand.reads_list (yields_of_defaulted hargs') hargs))

end Accesses

section Expressions

theorem Expr.reads_toJson {e : Expr} (h : reader.Yields e) (he : Exact e.constants) :
    reader.Reads e.toJson e := by
  obtain ⟨key, d, hd, hyields⟩ := h.of_payload
  split at hd <;> cases hd
  · -- Operands.
    obtain ⟨op, hop, rfl⟩ := hyields.of_map
    exact reads_choice rfl rfl ((Operand.reads_toJson hop (he.of_mem (by simp))).map _)
  · -- Operations, negations, conversions and tests of a type.
    obtain ⟨_, h₁, rhs, hrhs, rfl⟩ := hyields.of_record.of_seq
    obtain ⟨_, h₂, lhs, hlhs, rfl⟩ := h₁.of_seq
    obtain ⟨op, -, rfl⟩ := h₂.of_map
    exact reads_choice rfl rfl <| reads_record rfl <|
      (((reads_required rfl op.reads_name).map _).seq
        (reads_required rfl (Operand.reads_toJson hlhs.of_required (he.of_mem (by simp))))).seq
          (reads_required rfl (Operand.reads_toJson hrhs.of_required (he.of_mem (by simp))))
  · obtain ⟨op, hop, rfl⟩ := hyields.of_map
    exact reads_choice rfl rfl ((Operand.reads_toJson hop (he.of_mem (by simp))).map _)
  · obtain ⟨_, h₁, ty, hty, rfl⟩ := hyields.of_record.of_seq
    obtain ⟨op, hop, rfl⟩ := h₁.of_map
    exact reads_choice rfl rfl <| reads_record rfl <|
      ((reads_required rfl
        (Operand.reads_toJson hop.of_required (he.of_mem (by simp)))).map _).seq
          (reads_required rfl (Ty.reads_toJson hty.of_required))
  · obtain ⟨_, h₁, check, hcheck, rfl⟩ := hyields.of_record.of_seq
    obtain ⟨op, hop, rfl⟩ := h₁.of_map
    exact reads_choice rfl rfl <| reads_record rfl <|
      ((reads_required rfl
        (Operand.reads_toJson hop.of_required (he.of_mem (by simp)))).map _).seq
          (reads_required rfl (Ty.reads_toJson hcheck.of_required))
  · -- New objects and arrays.
    obtain ⟨n, -, rfl⟩ := hyields.of_map
    exact reads_choice rfl rfl (n.reads_toJson.map _)
  · obtain ⟨_, h₁, size, hsize, rfl⟩ := hyields.of_record.of_seq
    obtain ⟨element, helement, rfl⟩ := h₁.of_map
    exact reads_choice rfl rfl <| reads_record rfl <|
      ((reads_required rfl (Ty.reads_toJson helement.of_required)).map _).seq
        (reads_required rfl (Operand.reads_toJson hsize.of_required (he.of_mem (by simp))))
  · obtain ⟨_, h₁, sizes, hsizes, rfl⟩ := hyields.of_record.of_seq
    obtain ⟨ty, hty, rfl⟩ := h₁.of_map
    exact reads_choice rfl rfl <| reads_record rfl <|
      ((reads_required rfl (Ty.reads_toJson hty.of_required)).map _).seq
        (reads_required rfl (Operand.reads_list hsizes.of_required.of_list he))
  · -- Lengths of arrays, calls, fields, entries of arrays and merges of locals.
    obtain ⟨op, hop, rfl⟩ := hyields.of_map
    exact reads_choice rfl rfl ((Operand.reads_toJson hop (he.of_mem (by simp))).map _)
  · obtain ⟨call, hcall, rfl⟩ := hyields.of_map
    exact reads_choice rfl rfl ((Invocation.reads_toJson hcall he).map _)
  · obtain ⟨f, hf, rfl⟩ := hyields.of_map
    exact reads_choice rfl rfl ((FieldRef.reads_toJson hf).map _)
  · obtain ⟨a, ha, rfl⟩ := hyields.of_map
    exact reads_choice rfl rfl ((ArrayRef.reads_toJson ha he).map _)
  · obtain ⟨locals, hlocals, rfl⟩ := hyields.of_map
    exact reads_choice rfl rfl ((Local.reads_list hlocals.of_list).map _)

theorem Source.reads_toJson {s : Source} (h : reader.Yields s) : reader.Reads s.toJson s := by
  rcases h.of_choice with ⟨key, hkey⟩ | ⟨key, d, hd, hs⟩
  · split at hkey <;> cases hkey
    · exact reads_word rfl
    · exact reads_word rfl
  · split at hd <;> cases hd
    obtain ⟨_, h₁, ty, hty, rfl⟩ := hs.of_record.of_seq
    obtain ⟨index, hindex, rfl⟩ := h₁.of_map
    exact reads_choice rfl rfl <| reads_record rfl <|
      ((reads_required rfl (reads_natOfBits hindex.of_required.of_natOfBits)).map _).seq
        (reads_required rfl (Ty.reads_toJson hty.of_required))

theorem Place.reads_toJson {p : Place} (h : reader.Yields p) (hp : Exact p.constants) :
    reader.Reads p.toJson p := by
  obtain ⟨key, d, hd, hyields⟩ := h.of_payload
  split at hd <;> cases hd
  · obtain ⟨l, hl, rfl⟩ := hyields.of_map
    exact reads_choice rfl rfl ((Local.reads_toJson hl).map _)
  · obtain ⟨f, hf, rfl⟩ := hyields.of_map
    exact reads_choice rfl rfl ((FieldRef.reads_toJson hf).map _)
  · obtain ⟨a, ha, rfl⟩ := hyields.of_map
    exact reads_choice rfl rfl ((ArrayRef.reads_toJson ha hp).map _)

end Expressions

end BytecodeLowering.Ir
