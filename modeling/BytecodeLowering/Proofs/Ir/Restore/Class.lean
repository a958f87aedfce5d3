import BytecodeLowering.Proofs.Ir.Restore.Body
import Mathlib

/-!
# Reading written classes

Classes are read back from their written form: what a text says is not lost when it is written, if
no constant is a floating-point value.

* `AnnotationValue.reads_readerTo`: the values of annotations, by induction on their depth.
* `Class.reads_toJson`: classes that a JSON value describes.
* `Class.reader_toJson`: classes that a text describes.
-/

namespace BytecodeLowering.Ir

open Json Decoder Fields

section Annotations

mutual

/-- The constants of an annotation value. -/
def AnnotationValue.constants : AnnotationValue → List Constant
  | const k => [k]
  | enumConst .. | classOf _ => []
  | array values => AnnotationValue.listConstants values
  | nested _ elements => AnnotationValue.elementsConstants elements

/-- The constants of annotation values. -/
def AnnotationValue.listConstants : List AnnotationValue → List Constant
  | [] => []
  | v :: vs => v.constants ++ AnnotationValue.listConstants vs

/-- The constants of annotation elements. -/
def AnnotationValue.elementsConstants : List (String × AnnotationValue) → List Constant
  | [] => []
  | (_, v) :: es => v.constants ++ AnnotationValue.elementsConstants es

end

namespace AnnotationValue

theorem listJson_eq_map (vs : List AnnotationValue) : listJson vs = vs.map toJson := by
  induction vs with
  | nil => rfl
  | cons v vs ih => rw [listJson, ih, List.map_cons]

/-- The JSON form of an annotation element. -/
def elementJson (e : String × AnnotationValue) : Json :=
  .record [("name", .ofString e.1), ("value", e.2.toJson)]

theorem elementsJson_eq_map (es : List (String × AnnotationValue)) :
    elementsJson es = es.map elementJson := by
  induction es with
  | nil => rfl
  | cons e es ih => rw [elementsJson, ih, List.map_cons, elementJson]

theorem listConstants_eq_flatMap (vs : List AnnotationValue) :
    listConstants vs = vs.flatMap constants := by
  induction vs with
  | nil => rfl
  | cons v vs ih => rw [listConstants, ih, List.flatMap_cons]

theorem elementsConstants_eq_flatMap (es : List (String × AnnotationValue)) :
    elementsConstants es = es.flatMap fun e => e.2.constants := by
  induction es with
  | nil => rfl
  | cons e es ih => rw [elementsConstants, ih, List.flatMap_cons]

/-- Values are read back by a reader of their depth, whatever the depth is that they were read
with. -/
theorem reads_readerTo {level : Nat} {v : AnnotationValue} (h : (readerTo level).Yields v)
    (hv : Exact v.constants) {n : Nat} (hn : v.toJson.depth < n) :
    (readerTo n).Reads v.toJson v := by
  induction level generalizing v n with
  | zero =>
    -- A reader without any depth reads nothing.
    obtain ⟨room, j, h⟩ := h
    cases h
  | succ level ih =>
    obtain ⟨n, rfl⟩ := Nat.exists_eq_add_of_le' (Nat.one_le_of_lt hn)
    obtain ⟨key, d, hd, hyields⟩ := Yields.of_payload h
    split at hd <;> cases hd
    · -- Constants.
      obtain ⟨k, hk, rfl⟩ := hyields.of_map
      exact reads_choice rfl rfl
        ((Constant.reads_toJson hk (hv k List.mem_cons_self)).map _)
    · -- Members of enumerations, and classes.
      obtain ⟨_, h₁, name, -, rfl⟩ := hyields.of_record.of_seq
      obtain ⟨ty, -, rfl⟩ := h₁.of_map
      exact reads_choice rfl rfl <| reads_record rfl <|
        ((reads_required rfl ty.reads_toJson).map _).seq (reads_required rfl (reads_text name))
    · obtain ⟨ty, hty, rfl⟩ := hyields.of_map
      exact reads_choice rfl rfl ((Ty.reads_toJson hty).map _)
    · -- The values in an array nest less than the array, so that the reader has depth left for
      -- them.
      obtain ⟨values, hvalues, rfl⟩ := hyields.of_map
      rw [constants, listConstants_eq_flatMap] at hv
      rw [toJson, listJson_eq_map] at hn ⊢
      have hvalue : ∀ v ∈ values, (readerTo n).Reads v.toJson v := fun v hmem => by
        have hle := depth_le_depthItems (List.mem_map_of_mem (f := toJson) hmem)
        simp only [alternative, Json.record, List.map_cons, List.map_nil, depth, depthMembers] at hn
        exact ih (hvalues.of_list v hmem) (hv.of_flatMap hmem) (by omega)
      exact reads_choice rfl rfl ((Decoder.reads_list hvalue).map _)
    · -- So do the values of the elements of an annotation.
      obtain ⟨_, h₁, elements, helements, rfl⟩ := hyields.of_record.of_seq
      obtain ⟨ty, -, rfl⟩ := h₁.of_map
      rw [constants, elementsConstants_eq_flatMap] at hv
      rw [toJson, elementsJson_eq_map] at hn ⊢
      have helement : ∀ e ∈ elements, (record <| Prod.mk <$> required "name" text <*>
          required "value" (readerTo n)).Reads (elementJson e) e := fun e hmem => by
        obtain ⟨_, h₁, v, hvalue, rfl⟩ := (yields_of_defaulted helements e hmem).of_record.of_seq
        obtain ⟨name, -, rfl⟩ := h₁.of_map
        have hle := depth_le_depthItems (List.mem_map_of_mem (f := elementJson) hmem)
        simp only [alternative, elementJson, Json.record, List.map_cons, List.map_nil, depth,
          depthMembers] at hn hle
        exact reads_record rfl <| ((reads_required rfl (reads_text name)).map _).seq
          (reads_required rfl (ih hvalue.of_required (hv.of_flatMap hmem) (by omega)))
      exact reads_choice rfl rfl <| reads_record rfl <|
        ((reads_required rfl ty.reads_toJson).map _).seq
          (reads_defaulted rfl (Decoder.reads_list helement))

/-- A value of an annotation is written as an object. -/
theorem toJson_ne_null (v : AnnotationValue) : v.toJson ≠ .null := by
  cases v <;> rw [toJson] <;> exact nofun

theorem reads_toJson {v : AnnotationValue} (h : reader.Yields v) (hv : Exact v.constants) :
    reader.Reads v.toJson v := by
  obtain ⟨room, j, h⟩ := h
  exact fun room' hroom => reads_readerTo ⟨room, j, h⟩ hv (Nat.lt_succ_of_le hroom) room' hroom

end AnnotationValue

end Annotations

section Classes

theorem Modifier.reads_name (m : Modifier) : reader.Reads (.ofString m.name) m :=
  reads_word (by cases m <;> rfl)

/-- A set of modifiers is one already. -/
theorem Modifier.normalize_normalize (ms : List Modifier) :
    normalize (normalize ms) = normalize ms := by
  refine List.filter_congr fun m hm => ?_
  simp [normalize, hm]

/-- A set of modifiers that was read is read back. -/
theorem Modifier.reads_set {ms : List Modifier}
    (h : (defaulted "modifiers" [] setReader).Yields ms) :
    setReader.Reads (modifiersJson ms) ms := by
  have hms : normalize ms = ms := by
    rcases h.of_defaulted with rfl | h
    · rfl
    · obtain ⟨ms, -, rfl⟩ := h.of_map
      exact normalize_normalize ms
  have hreads : setReader.Reads (modifiersJson ms) (normalize ms) :=
    (Decoder.reads_list fun m _ => m.reads_name).map _
  rwa [hms] at hreads

/-- The constants of a field. -/
def Field.constants (f : Field) : List Constant :=
  f.constant.toList

/-- The constants of a method. -/
def Method.constants (m : Method) : List Constant :=
  m.body.toList.flatMap Body.constants ++
    m.annotationDefault.toList.flatMap AnnotationValue.constants

/-- The constants of a class. -/
def Class.constants (c : Class) : List Constant :=
  c.fields.flatMap Field.constants ++ c.methods.flatMap Method.constants

/-- What may be absent was read if it is there. -/
theorem yields_of_optional {α : Type} {d : Reader α} {name : String} {o : Option α}
    (h : (defaulted name none d.optional).Yields o) : ∀ x ∈ o, d.Yields x := by
  rcases h.of_defaulted with rfl | h
  · exact nofun
  · exact h.of_optional

theorem ClassName.reads_list (ns : List ClassName) :
    ClassName.reader.list.Reads (.ofList ClassName.toJson ns) ns :=
  Decoder.reads_list fun n _ => n.reads_toJson

theorem Field.reads_toJson {f : Field} (h : reader.Yields f) (hf : Exact f.constants) :
    reader.Reads f.toJson f := by
  obtain ⟨_, h₁, constant, hconstant, rfl⟩ := h.of_record.of_seq
  obtain ⟨_, h₂, modifiers, hmodifiers, rfl⟩ := h₁.of_seq
  obtain ⟨_, h₃, ty, hty, rfl⟩ := h₂.of_seq
  obtain ⟨name, -, rfl⟩ := h₃.of_map
  have hconstant' : Constant.reader.optional.Reads (.ofOption Constant.toJson constant) constant :=
    reads_optional fun k hk => ⟨nofun, Constant.reads_toJson (yields_of_optional hconstant k hk)
      (hf k (Option.mem_toList.2 hk))⟩
  exact reads_record rfl <|
    ((((reads_required rfl (reads_text name)).map _).seq
      (reads_required rfl (Ty.reads_toJson hty.of_required))).seq
        (reads_defaulted rfl (Modifier.reads_set hmodifiers))).seq
          (reads_defaulted rfl hconstant')

theorem Method.reads_toJson {m : Method} (h : reader.Yields m) (hm : Exact m.constants) :
    reader.Reads m.toJson m := by
  obtain ⟨hb, hd⟩ := Exact.of_append hm
  obtain ⟨_, h₁, annotationDefault, hdefault, rfl⟩ := h.of_record.of_seq
  obtain ⟨_, h₂, body, hbody, rfl⟩ := h₁.of_seq
  obtain ⟨_, h₃, exceptions, -, rfl⟩ := h₂.of_seq
  obtain ⟨_, h₄, ret, hret, rfl⟩ := h₃.of_seq
  obtain ⟨_, h₅, params, hparams, rfl⟩ := h₄.of_seq
  obtain ⟨_, h₆, modifiers, hmodifiers, rfl⟩ := h₅.of_seq
  obtain ⟨name, -, rfl⟩ := h₆.of_map
  have hbody' : Body.reader.optional.Reads (.ofOption Body.toJson body) body :=
    reads_optional fun b hmem => ⟨nofun, Body.reads_toJson (yields_of_optional hbody b hmem)
      (hb.of_flatMap (Option.mem_toList.2 hmem))⟩
  have hdefault' : AnnotationValue.reader.optional.Reads
      (.ofOption AnnotationValue.toJson annotationDefault) annotationDefault :=
    reads_optional fun v hmem => ⟨v.toJson_ne_null,
      AnnotationValue.reads_toJson (yields_of_optional hdefault v hmem)
        (hd.of_flatMap (Option.mem_toList.2 hmem))⟩
  exact reads_record rfl <|
    (((((((reads_required rfl (reads_text name)).map _).seq
      (reads_defaulted rfl (Modifier.reads_set hmodifiers))).seq
        (reads_defaulted rfl (Ty.reads_list (yields_of_defaulted hparams)))).seq
          (reads_required rfl (Ty.reads_toJson hret.of_required))).seq
            (reads_defaulted rfl (ClassName.reads_list exceptions))).seq
              (reads_defaulted rfl hbody')).seq
                (reads_defaulted rfl hdefault')

/-- A class without floating-point constants that a JSON value describes is described by its written
form. -/
theorem Class.reads_toJson {c : Class} (h : reader.Yields c) (hc : Exact c.constants) :
    reader.Reads c.toJson c := by
  obtain ⟨hfields, hmethods⟩ := Exact.of_append hc
  obtain ⟨_, h₁, methods, hmethods', rfl⟩ := h.of_record.of_seq
  obtain ⟨_, h₂, fields, hfields', rfl⟩ := h₁.of_seq
  obtain ⟨_, h₃, modifiers, hmodifiers, rfl⟩ := h₂.of_seq
  obtain ⟨_, h₄, interfaces, -, rfl⟩ := h₃.of_seq
  obtain ⟨_, h₅, superClass, -, rfl⟩ := h₄.of_seq
  obtain ⟨name, -, rfl⟩ := h₅.of_map
  have hsuper : ClassName.reader.optional.Reads (.ofOption ClassName.toJson superClass)
      superClass := reads_optional fun n _ => ⟨nofun, n.reads_toJson⟩
  have hfieldsRead : Field.reader.list.Reads (.ofList Field.toJson fields) fields :=
    Decoder.reads_list fun f hf =>
      Field.reads_toJson (yields_of_defaulted hfields' f hf) (hfields.of_flatMap hf)
  have hmethodsRead : Method.reader.list.Reads (.ofList Method.toJson methods) methods :=
    Decoder.reads_list fun m hm =>
      Method.reads_toJson (yields_of_defaulted hmethods' m hm) (hmethods.of_flatMap hm)
  exact reads_record rfl <|
    ((((((reads_required rfl name.reads_toJson).map _).seq (reads_defaulted rfl hsuper)).seq
      (reads_defaulted rfl (ClassName.reads_list interfaces))).seq
        (reads_defaulted rfl (Modifier.reads_set hmodifiers))).seq
          (reads_defaulted rfl hfieldsRead)).seq (reads_defaulted rfl hmethodsRead)

/-- A class that a text describes survives being written, if none of its constants is a
floating-point value: its written form describes the same class, wherever there is room for its
containers. -/
theorem Class.reader_toJson {text : String} {c : Class} (h : ofText text = .ok c)
    (hc : ∀ k ∈ c.constants, k.isFloating = false) {room : Nat} (hroom : c.toJson.depth ≤ room) :
    reader room c.toJson = .ok c := by
  obtain ⟨c', hread, h⟩ := bind_eq_ok_iff.1 h
  split at h <;> cases h
  exact reads_toJson ⟨_, _, hread⟩ hc room hroom

end Classes

section Guarded

/-- A class whose method has a body with a trap in place of blocks, a type with a blank, and a local
without a role. -/
def guardedText : String :=
  "\x7b\"name\":\"A\",\"methods\":[\x7b\"name\":\"f\",\"ret\":\"byte []\"," ++
    "\"body\":\x7b\"stmts\":[\x7b\"id\":7,\"kind\":\"nop\"\x7d,\x7b\"id\":4," ++
    "\"kind\":\x7b\"throw\":\x7b\"local\":\x7b\"name\":\"e#\",\"ty\":\"E\"\x7d\x7d\x7d\x7d]," ++
    "\"traps\":[\x7b\"exception\":\"E\",\"begin\":7,\"end\":4,\"handler\":4\x7d]\x7d\x7d]\x7d"

/-- The body of the method of `guardedText`. -/
def guardedBody : Body where
  locals := []
  stmts := [⟨⟨7⟩, none, .nop⟩, ⟨⟨4⟩, none, .throw (.var ⟨"e#", .object ⟨"E"⟩, .handlerRef⟩)⟩]
  flow := ⟨[⟨⟨0⟩, [⟨7⟩], [⟨1⟩], [⟨⟨"E"⟩, ⟨1⟩⟩]⟩, ⟨⟨1⟩, [⟨4⟩], [], []⟩]⟩

/-- `Class.reader_toJson` at a class that a text describes in other ways than its written form. -/
theorem guarded_reader_toJson : ∃ c, Class.ofText guardedText = .ok c ∧
    c.methods.map (fun m => (m.ret, m.body)) = [(.array (.prim .byte) 1, some guardedBody)] ∧
    (∀ k ∈ c.constants, k.isFloating = false) ∧
    Class.reader nestingLimit c.toJson = .ok c := by
  have hread : ∃ c, (Class.ofText guardedText).toOption = some c ∧
      c.methods.map (fun m => (m.ret, m.body)) = [(.array (.prim .byte) 1, some guardedBody)] ∧
      (∀ k ∈ c.constants, k.isFloating = false) ∧ c.toJson.depth ≤ nestingLimit := by
    simp only [← Option.mem_def]
    decide +kernel
  obtain ⟨c, hc, hmethods, hexact, hdepth⟩ := hread
  have hread : Class.ofText guardedText = .ok c := by
    cases h : Class.ofText guardedText <;> rw [h] at hc <;> cases hc
    rfl
  exact ⟨c, hread, hmethods, hexact, Class.reader_toJson hread hexact hdepth⟩

end Guarded

end BytecodeLowering.Ir
