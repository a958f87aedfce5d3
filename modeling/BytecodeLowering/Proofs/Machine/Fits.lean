import BytecodeLowering.Machine.Artifact
import BytecodeLowering.Proofs.Machine.Codec
import Mathlib.Tactic.MkIffOfInductiveProp

/-!
# Codecs of the parts of a class

The codec of each part of a class is lawful, for the parts whose numbers, texts and lists fit their
fields.

* `Insn.Fits`, `ElementValue.Fits`, `ClassImage.Fits` and the like: the parts that fit.
* `Insn.lawful_codec`, `ElementValue.lawful_codec`, `ClassImage.lawful_codec` and the like: the law
  for each part.
* `ElementValue.put_codecTo_eq`, `ElementValue.depth_le_length`: the bytes of an annotation value do
  not depend on the depth of the codec, and bound it.
-/

namespace BytecodeLowering.Machine

open Codec (WidthFits StringFits ListFits)

namespace Codec

theorem lawful_single : single.Lawful fun _ => True :=
  lawful_uint32.via_total (fun _ => trivial) (fun _ => rfl) fun _ _ => rfl

theorem lawful_double : double.Lawful fun _ => True :=
  lawful_uint64.via_total (fun _ => trivial) (fun _ => rfl) fun _ _ => rfl

theorem lawful_handleTag : (ofList HandleTag.all).Lawful fun _ => True := by
  refine lawful_ofList ?_ (by decide) (by decide)
  intro t
  cases t <;> decide

theorem lawful_opcode : opcode.Lawful fun _ => True := by
  refine lawful_ofList ?_ ?_ (by decide +kernel)
  · intro op
    have hplace : Opcode.all[op.ctorIdx]? = some op := by cases op <;> rfl
    exact List.mem_of_getElem? hplace
  · -- The opcodes are listed in the order of their declaration.
    have hplaces : Opcode.all.map Opcode.ctorIdx = List.range Opcode.all.length := by decide +kernel
    exact List.Nodup.of_map Opcode.ctorIdx (hplaces ▸ List.nodup_range)

end Codec

/-! ### Instructions -/

/-- A label whose number fits. -/
def Label.Fits (l : Label) : Prop :=
  WidthFits 4 l.id

theorem Label.lawful_codec : Codec.label.Lawful Label.Fits :=
  (Codec.lawful_nat 4).record fun _ => Iff.rfl

/-- A handle whose texts fit. -/
@[mk_iff]
structure Handle.Fits (h : Handle) : Prop where
  owner : StringFits h.owner
  name : StringFits h.name
  desc : StringFits h.desc

theorem Handle.lawful_codec : Handle.codec.Lawful Handle.Fits := by
  refine (Codec.lawful_handleTag.pair (Codec.lawful_string.pair (Codec.lawful_string.pair
    (Codec.lawful_string.pair Codec.lawful_bool)))).record ?_
  intro _
  -- The tag and the truth value always fit.
  simp [Handle.fits_iff]

/-- A constant whose texts fit. -/
def Loadable.Fits : Loadable → Prop
  | .str s | .type s | .methodType s => StringFits s
  | .handle h => h.Fits
  | _ => True

theorem Loadable.lawful_codec : Loadable.codec.Lawful Loadable.Fits := by
  refine .union Loadable.ctorIdx ?_ (by decide) ?_
  · intro c
    cases c <;> exact ⟨rfl, rfl⟩
  · simp only [List.forall_mem_cons, List.not_mem_nil, false_implies, implies_true, and_true]
    exact ⟨Codec.lawful_int32.variant fun _ => Iff.rfl, Codec.lawful_int64.variant fun _ => Iff.rfl,
      Codec.lawful_single.variant fun _ => Iff.rfl, Codec.lawful_double.variant fun _ => Iff.rfl,
      Codec.lawful_string.variant fun _ => Iff.rfl, Codec.lawful_string.variant fun _ => Iff.rfl,
      Codec.lawful_string.variant fun _ => Iff.rfl, Handle.lawful_codec.variant fun _ => Iff.rfl⟩

/-- An instruction whose numbers, texts and lists fit. -/
def Insn.Fits : Insn → Prop
  | .simple _ | .int .. => True
  | .var _ slot => WidthFits 2 slot
  | .type _ name => StringFits name
  | .field _ owner name desc | .method _ owner name desc _ =>
    StringFits owner ∧ StringFits name ∧ StringFits desc
  | .invokeDynamic name desc bootstrap args =>
    StringFits name ∧ StringFits desc ∧ bootstrap.Fits ∧ ListFits Loadable.Fits args
  | .jump _ target => target.Fits
  | .ldc c => c.Fits
  | .tableSwitch _ _ default labels => default.Fits ∧ ListFits Label.Fits labels
  | .lookupSwitch default keys labels =>
    default.Fits ∧ WidthFits 8 keys.length ∧ ListFits Label.Fits labels
  | .multiNewArray desc dims => StringFits desc ∧ WidthFits 1 dims
  | .label l => l.Fits
  | .lineNumber line start => WidthFits 4 line ∧ start.Fits

theorem Insn.lawful_codec : Insn.codec.Lawful Insn.Fits := by
  have hop := Codec.lawful_opcode
  have hstring := Codec.lawful_string
  have hlabel := Label.lawful_codec
  refine .union Insn.ctorIdx ?_ (by decide) ?_
  · intro i
    cases i <;> exact ⟨rfl, rfl⟩
  · simp only [List.forall_mem_cons, List.not_mem_nil, false_implies, implies_true, and_true]
    -- The alternatives come in the order of their numbers.
    refine ⟨hop.variant ?_, (hop.pair Codec.lawful_int32).variant ?_,
      (hop.pair (Codec.lawful_nat 2)).variant ?_, (hop.pair hstring).variant ?_,
      (hop.pair (hstring.pair (hstring.pair hstring))).variant ?_,
      (hop.pair (hstring.pair (hstring.pair (hstring.pair Codec.lawful_bool)))).variant ?_,
      (hstring.pair (hstring.pair (Handle.lawful_codec.pair Loadable.lawful_codec.list))).variant
        ?_,
      (hop.pair hlabel).variant ?_, Loadable.lawful_codec.variant ?_,
      (Codec.lawful_int32.pair (Codec.lawful_int32.pair (hlabel.pair hlabel.list))).variant ?_,
      (hlabel.pair (Codec.lawful_int32.list.pair hlabel.list)).variant ?_,
      (hstring.pair (Codec.lawful_nat 1)).variant ?_, hlabel.variant ?_,
      ((Codec.lawful_nat 4).pair hlabel).variant ?_⟩
    all_goals
      intro content
      simp [Insn.Fits, ListFits]

/-- An entry of an exception table whose labels and text fit. -/
@[mk_iff]
structure Guard.Fits (g : Guard) : Prop where
  start : g.start.Fits
  stop : g.stop.Fits
  handler : g.handler.Fits
  exception : ∀ name ∈ g.exception, StringFits name

theorem Guard.lawful_codec : Guard.codec.Lawful Guard.Fits :=
  (Label.lawful_codec.pair (Label.lawful_codec.pair
    (Label.lawful_codec.pair Codec.lawful_string.option))).record
    fun g => (Guard.fits_iff g).symm

/-- Code whose parts fit. -/
@[mk_iff]
structure MethodCode.Fits (c : MethodCode) : Prop where
  insns : ListFits Insn.Fits c.insns
  guards : ListFits Guard.Fits c.guards
  stack : WidthFits 2 c.sizes.stack
  locals : WidthFits 2 c.sizes.locals

theorem MethodCode.lawful_codec : MethodCode.codec.Lawful MethodCode.Fits :=
  (Insn.lawful_codec.list.pair (Guard.lawful_codec.list.pair
    ((Codec.lawful_nat 2).pair (Codec.lawful_nat 2)))).record
    fun c => (MethodCode.fits_iff c).symm

/-! ### Annotation values -/

namespace ElementValue

mutual

/-- An annotation value whose texts and lists fit. -/
def Fits : ElementValue → Prop
  | .str s | .classOf s => StringFits s
  | .enumConst desc name => StringFits desc ∧ StringFits name
  | .array values => WidthFits 8 values.length ∧ AllFit values
  | .nested desc values => StringFits desc ∧ WidthFits 8 values.length ∧ PairsFit values
  | _ => True

/-- Annotation values that fit. -/
def AllFit : List ElementValue → Prop
  | [] => True
  | v :: vs => v.Fits ∧ AllFit vs

/-- Named annotation values that fit. -/
def PairsFit : List (String × ElementValue) → Prop
  | [] => True
  | (name, v) :: ps => (StringFits name ∧ v.Fits) ∧ PairsFit ps

end

theorem allFit_iff {vs : List ElementValue} : AllFit vs ↔ ∀ v ∈ vs, v.Fits := by
  induction vs with
  | nil => simp [AllFit]
  | cons v vs ih => rw [AllFit, List.forall_mem_cons, ih]

theorem pairsFit_iff {ps : List (String × ElementValue)} :
    PairsFit ps ↔ ∀ p ∈ ps, StringFits p.1 ∧ p.2.Fits := by
  induction ps with
  | nil => simp [PairsFit]
  | cons p ps ih => rw [PairsFit, List.forall_mem_cons, ih]

theorem listDepth_le_iff {vs : List ElementValue} {n : Nat} :
    listDepth vs ≤ n ↔ ∀ v ∈ vs, v.depth ≤ n := by
  induction vs with
  | nil => simp [listDepth]
  | cons v vs ih => rw [listDepth, List.forall_mem_cons, Nat.max_le, ih]

theorem pairsDepth_le_iff {ps : List (String × ElementValue)} {n : Nat} :
    pairsDepth ps ≤ n ↔ ∀ p ∈ ps, p.2.depth ≤ n := by
  induction ps with
  | nil => simp [pairsDepth]
  | cons p ps ih => rw [pairsDepth, List.forall_mem_cons, Nat.max_le, ih]

theorem depth_pos (v : ElementValue) : 0 < v.depth := by
  cases v <;> simp [depth]

/-- The codec of some depth is lawful for the values that are nested no deeper. -/
theorem lawful_codecTo (n : Nat) : (codecTo n).Lawful fun v => v.depth ≤ n ∧ v.Fits := by
  induction n with
  | zero =>
    -- Every value has a level, so that there is nothing to write.
    refine Codec.lawful_empty ?_
    intro v h
    exact Nat.not_le_of_gt v.depth_pos h.1
  | succ n ih =>
    have hstring := Codec.lawful_string
    refine .union ElementValue.ctorIdx ?_ (show 10 ≤ Nat.pow 256 4 by decide) ?_
    · intro v
      cases v <;> exact ⟨rfl, rfl⟩
    · simp only [variants, List.forall_mem_cons, List.not_mem_nil, false_implies, implies_true,
        and_true]
      refine ⟨Codec.lawful_bool.variant ?_, Codec.lawful_int32.variant ?_,
        Codec.lawful_int64.variant ?_, Codec.lawful_single.variant ?_,
        Codec.lawful_double.variant ?_, hstring.variant ?_, (hstring.pair hstring).variant ?_,
        hstring.variant ?_, ih.list.variant ?array,
        (hstring.pair (hstring.pair ih).list).variant ?nested⟩
      case array =>
        intro vs
        rw [Fits, depth, Nat.succ_le_succ_iff, listDepth_le_iff, allFit_iff, ListFits, forall₂_and,
          and_left_comm]
      case nested =>
        rintro ⟨desc, ps⟩
        rw [Fits, depth, Nat.succ_le_succ_iff, pairsDepth_le_iff, pairsFit_iff]
        constructor
        · rintro ⟨hdesc, hlen, hps⟩
          exact ⟨fun p hp => (hps p hp).2.1, hdesc, hlen,
            fun p hp => ⟨(hps p hp).1, (hps p hp).2.2⟩⟩
        · rintro ⟨hdepth, hdesc, hlen, hps⟩
          exact ⟨hdesc, hlen, fun p hp => ⟨(hps p hp).1, hdepth p hp, (hps p hp).2⟩⟩
      all_goals
        intro content
        simp [Fits, depth]

/-- What is written for an annotation value behind the number of its alternative. -/
def content? (inner : Codec ElementValue) (v : ElementValue) : Option Bytes :=
  ((variants inner)[v.ctorIdx]?.bind (Variant.put? · v)).join

theorem put_codecTo_succ (n : Nat) (v : ElementValue) :
    (codecTo (n + 1)).put v = (do
      let tag ← (Codec.nat 4).put v.ctorIdx
      let bs ← v.content? (codecTo n)
      return tag ++ bs) := by
  cases v <;> rfl

/-- A codec of greater depth writes the same for what is not nested too deep. -/
theorem put_codecTo_eq {m n : Nat} {v : ElementValue} (hm : v.depth ≤ m) (hn : v.depth ≤ n) :
    (codecTo m).put v = (codecTo n).put v := by
  induction m generalizing n v with
  | zero => exact absurd hm (Nat.not_le_of_gt v.depth_pos)
  | succ m ih =>
    cases n with
    | zero => exact absurd hn (Nat.not_le_of_gt v.depth_pos)
    | succ n =>
      -- The codecs of lower depth only write the values inside of `v`.
      have hcontent : v.content? (codecTo m) = v.content? (codecTo n) := by
        cases v with
        -- array vs|
        | array vs =>
          rw [depth, Nat.succ_le_succ_iff, listDepth_le_iff] at hm hn
          exact Codec.put_list_congr fun v hv => ih (hm v hv) (hn v hv)
        | nested desc ps =>
          rw [depth, Nat.succ_le_succ_iff, pairsDepth_le_iff] at hm hn
          have hps : (Codec.string.pair (codecTo m)).list.put ps =
              (Codec.string.pair (codecTo n)).list.put ps := by
            refine Codec.put_list_congr ?_
            intro p hp
            simp only [Codec.pair, ih (hm p hp) (hn p hp)]
          exact congrArg (fun bs => do
            let a ← Codec.string.put desc
            let b ← bs
            return a ++ b) hps
        | _ => rfl
      rw [put_codecTo_succ, put_codecTo_succ, hcontent]

/-- An annotation value has a byte for each level of it. -/
theorem depth_le_length {n : Nat} {v : ElementValue} {b : Bytes} (h : (codecTo n).put v = some b) :
    v.depth ≤ b.length := by
  induction n generalizing v b with
  | zero => cases h
  | succ n ih =>
    rw [put_codecTo_succ] at h
    -- The number of the alternative makes up for the level of `v` itself.
    obtain ⟨bs, hbs, hlen⟩ := Codec.length_of_put_nat_append h
    cases v with
    | array vs =>
      have hput : (codecTo n).list.put vs = some bs := hbs
      have hvs : listDepth vs ≤ bs.length := by
        rw [listDepth_le_iff]
        intro v hv
        obtain ⟨b', hb', hle⟩ := Codec.exists_of_put_list hput v hv
        exact Nat.le_trans (ih hb') hle
      rw [depth]
      omega
    | nested desc ps =>
      have hput : (Codec.string.pair (Codec.string.pair (codecTo n)).list).put (desc, ps) =
          some bs := hbs
      obtain ⟨b₁, b₂, -, hlist, rfl⟩ := Codec.put_pair_eq_some_iff.1 hput
      have hps : pairsDepth ps ≤ b₂.length := by
        rw [pairsDepth_le_iff]
        intro p hp
        obtain ⟨b', hb', hle⟩ := Codec.exists_of_put_list hlist p hp
        obtain ⟨c₁, c₂, -, hv, rfl⟩ := Codec.put_pair_eq_some_iff.1 hb'
        rw [List.length_append] at hle
        exact Nat.le_trans (ih hv) (Nat.le_of_add_left_le hle)
      rw [List.length_append] at hlen
      rw [depth]
      omega
    | _ =>
      show 1 ≤ b.length
      omega

theorem lawful_codec : codec.Lawful Fits where
  put_iff v := by
    show (∃ bs, (codecTo v.depth).put v = some bs) ↔ v.Fits
    rw [(lawful_codecTo v.depth).put_iff]
    exact and_iff_right (Nat.le_refl _)
  get_iff bs v rest := by
    show (codecTo bs.length).get bs = _ ↔ ∃ b, (codecTo v.depth).put v = some b ∧ _
    rw [(lawful_codecTo bs.length).get_iff]
    -- The codec by the length of the bytes is deep enough, and writes what the one by depth does.
    constructor
    · rintro ⟨b, hput, rfl⟩
      have hdepth := (((lawful_codecTo _).put_iff v).1 ⟨b, hput⟩).1
      exact ⟨b, put_codecTo_eq hdepth (Nat.le_refl _) ▸ hput, rfl⟩
    · rintro ⟨b, hput, rfl⟩
      have hdepth : v.depth ≤ (b ++ rest).length := by
        rw [List.length_append]
        exact Nat.le_add_right_of_le (depth_le_length hput)
      exact ⟨b, put_codecTo_eq (Nat.le_refl _) hdepth ▸ hput, rfl⟩

end ElementValue

/-! ### Classes -/

/-- A header of a class whose texts and lists fit. -/
@[mk_iff]
structure ClassHeader.Fits (h : ClassHeader) : Prop where
  name : StringFits h.name
  superName : ∀ name ∈ h.superName, StringFits name
  interfaces : ListFits StringFits h.interfaces

theorem ClassHeader.lawful_codec : ClassHeader.codec.Lawful ClassHeader.Fits := by
  refine (Codec.lawful_uint16.pair (Codec.lawful_uint16.pair (Codec.lawful_string.pair
    (Codec.lawful_string.option.pair Codec.lawful_string.list)))).record ?_
  intro _
  simp [ClassHeader.fits_iff]

/-- A field whose texts fit. -/
@[mk_iff]
structure FieldDecl.Fits (f : FieldDecl) : Prop where
  name : StringFits f.name
  desc : StringFits f.desc
  constant : ∀ c ∈ f.constant, c.Fits

theorem FieldDecl.lawful_codec : FieldDecl.codec.Lawful FieldDecl.Fits := by
  refine (Codec.lawful_uint16.pair (Codec.lawful_string.pair (Codec.lawful_string.pair
    Loadable.lawful_codec.option))).record ?_
  intro _
  simp [FieldDecl.fits_iff]

/-- A header of a method whose texts and list fit. -/
@[mk_iff]
structure MethodHeader.Fits (h : MethodHeader) : Prop where
  name : StringFits h.name
  desc : StringFits h.desc
  exceptions : ListFits StringFits h.exceptions

theorem MethodHeader.lawful_codec : MethodHeader.codec.Lawful MethodHeader.Fits := by
  refine (Codec.lawful_uint16.pair (Codec.lawful_string.pair (Codec.lawful_string.pair
    Codec.lawful_string.list))).record ?_
  intro _
  simp [MethodHeader.fits_iff]

/-- A method whose parts fit. -/
@[mk_iff]
structure MethodImage.Fits (m : MethodImage) : Prop where
  header : m.header.Fits
  code : ∀ c ∈ m.code, c.Fits
  annotationDefault : ∀ v ∈ m.annotationDefault, v.Fits

theorem MethodImage.lawful_codec : MethodImage.codec.Lawful MethodImage.Fits :=
  (MethodHeader.lawful_codec.pair (MethodCode.lawful_codec.option.pair
    ElementValue.lawful_codec.option)).record
    fun m => (MethodImage.fits_iff m).symm

/-- A class whose parts fit. -/
@[mk_iff]
structure ClassImage.Fits (c : ClassImage) : Prop where
  header : c.header.Fits
  fields : ListFits FieldDecl.Fits c.fields
  methods : ListFits MethodImage.Fits c.methods

theorem ClassImage.lawful_codec : ClassImage.codec.Lawful ClassImage.Fits :=
  (ClassHeader.lawful_codec.pair (FieldDecl.lawful_codec.list.pair
    MethodImage.lawful_codec.list)).record
    fun c => (ClassImage.fits_iff c).symm

end BytecodeLowering.Machine
