import BytecodeLowering.Command.Run
import BytecodeLowering.Proofs.Lowering.WellFormed
import BytecodeLowering.Proofs.Machine.Artifact
import BytecodeLowering.Proofs.Machine.Check
import Mathlib

/-!
# Listing what was lowered

What the one command makes of an artifact that the other one has written.

* `lower_eq_ok_iff`: what a lowering that succeeds consists of.
* `check_lowerClass_iff`: an assembled class passes the checks iff it can be told by its name, as
  can its methods by theirs.
* `inspect_of_encode`: an encoded class is listed, or its check fails.
* `inspect_lower`: the artifact of such a class is read back and listed, that of any other is
  refused.
* `inspect_refused`: a class without a name and one with twin methods are lowered, but not listed.
-/

namespace BytecodeLowering.Command

open Lowering (Options LowerError LoweredClass lowerClass)
open Machine (Artifact.encode Artifact.decode)

variable {request : LowerRequest} {settings : Settings} {text : Option String}
  {result : LowerResult}

/-- A lowering succeeds iff the text is a class that is lowered, the artifact has a file, and the
class fits it. -/
theorem lower_eq_ok_iff : lower request settings text = .ok result ↔
    ∃ json c lowered output bytes, text = some json ∧ Ir.Class.ofText json = .ok c ∧
      lowerClass c (request.options settings) = .ok lowered ∧
      request.outputName settings = .ok output ∧ Artifact.encode lowered.image = some bytes ∧
      result = ⟨output, bytes, lowered.image.methods.length,
        lowered.failures.map Lowering.MethodFailure.method,
        if request.listing || settings.output.listing then some lowered.image.render
        else none⟩ := by
  cases text with
  | none =>
    constructor
    · intro h
      cases h
    · rintro ⟨_, _, _, _, _, ⟨⟩, -⟩
  | some json =>
    rw [lower]
    simp only [bind_eq_ok_iff, mapError_eq_ok_iff]
    constructor
    · rintro ⟨c, hc, lowered, hlowered, output, houtput, h⟩
      -- What is lowered may be too large for a file. Then no artifact is written.
      cases hencode : Artifact.encode lowered.image with
      | none =>
        rw [hencode] at h
        cases h
      | some bytes =>
        rw [hencode] at h
        exact ⟨json, c, lowered, output, bytes, rfl, hc, hlowered, houtput, hencode,
          (Except.ok.inj h).symm⟩
    · rintro ⟨_, c, lowered, output, bytes, ⟨⟩, hc, hlowered, houtput, hencode, rfl⟩
      refine ⟨c, hc, lowered, hlowered, output, houtput, ?_⟩
      rw [hencode]
      rfl

/-- What is written for a class is listed like it iff the class passes the checks, and is refused
otherwise. -/
theorem inspect_of_encode {c : Machine.ClassImage} {bytes : Machine.Bytes}
    (hencode : Artifact.encode c = some bytes) :
    (c.check = .ok () → inspect bytes = .ok c.render) ∧
      (c.check ≠ .ok () → inspect bytes = .error .badArtifact) := by
  rw [inspect, Machine.Artifact.decode_of_encode hencode]
  cases c.check <;> simp [Except.mapError, Except.map]

/-- An assembled class passes the checks iff it can be told by its name, as can its methods by
theirs: all code that was lowered is well-formed. -/
theorem check_lowerClass_iff {c : Ir.Class} {options : Options} {lowered : LoweredClass}
    (h : lowerClass c options = .ok lowered) :
    lowered.image.check = .ok () ↔ lowered.image.Distinct := by
  rw [Machine.ClassImage.check_eq_ok_iff, and_iff_left_iff_imp]
  intro _ image himage code hcode
  obtain ⟨fields, -, h⟩ := bind_eq_ok_iff.1 h
  obtain ⟨⟨images, failures⟩, hmethods, h⟩ := bind_eq_ok_iff.1 h
  cases h
  obtain ⟨m, -, hm⟩ := Lowering.exists_of_mem_lowerMethods hmethods himage
  exact (Lowering.wellFormed_of_methodImage hm code hcode).accepted

/-- The artifact of a class that can be told by its name, as can its methods by theirs, is read back
as that class and listed like it. The artifact of any other class is refused. -/
theorem inspect_lower (h : lower request settings text = .ok result) :
    ∃ json c lowered, text = some json ∧ Ir.Class.ofText json = .ok c ∧
      lowerClass c (request.options settings) = .ok lowered ∧
      Artifact.encode lowered.image = some result.bytes ∧
      (lowered.image.Distinct → Artifact.decode result.bytes = .ok lowered.image ∧
        inspect result.bytes = .ok lowered.image.render) ∧
      (¬lowered.image.Distinct → inspect result.bytes = .error .badArtifact) := by
  obtain ⟨json, c, lowered, output, bytes, htext, hc, hlowered, -, hencode, rfl⟩ :=
    lower_eq_ok_iff.1 h
  obtain ⟨hlisted, hrefused⟩ := inspect_of_encode hencode
  rw [Ne, check_lowerClass_iff hlowered] at hrefused
  rw [check_lowerClass_iff hlowered] at hlisted
  refine ⟨json, c, lowered, htext, hc, hlowered, hencode, fun hdistinct => ⟨?_, hlisted hdistinct⟩,
    hrefused⟩
  rw [Machine.Artifact.decode_of_encode hencode, (check_lowerClass_iff hlowered).2 hdistinct]
  rfl

section Texts

/-- A class with a method that has no code. -/
def plainText : String :=
  "\x7b\"name\":\"A\",\"methods\":[\x7b\"name\":\"f\",\"ret\":\"void\"\x7d]\x7d"

/-- A class whose name is empty. -/
def namelessText : String :=
  "\x7b\"name\":\"\"\x7d"

/-- A class that has the same method twice. -/
def twinText : String :=
  "\x7b\"name\":\"A\",\"methods\":[\x7b\"name\":\"f\",\"ret\":\"void\"\x7d," ++
    "\x7b\"name\":\"f\",\"ret\":\"void\"\x7d]\x7d"

/-- The class with the given name and that many methods like the one of `plainText`. -/
def plainClass (name : String) (count : Nat) : Ir.Class where
  name := ⟨name⟩
  superClass := none
  interfaces := []
  modifiers := []
  fields := []
  methods := List.replicate count ⟨"f", [], [], .void, [], none, none⟩

/-- The assembled form of `plainClass`. -/
def plainImage (name : String) (count : Nat) : Machine.ClassImage where
  header := ⟨55, 0, name, some "java/lang/Object", []⟩
  fields := []
  methods := List.replicate count ⟨⟨0, "f", "()V", []⟩, none, none⟩

/-- What is asked of the lowering of the texts. -/
def plainRequest : LowerRequest where
  input := "A.json"
  output := some "A.fjc"

/-- What comes of the lowering of a text of `plainClass`. -/
theorem exists_lower_plain (json name : String) (count : Nat)
    (hjson : Ir.Class.ofText json = .ok (plainClass name count))
    (hlower : lowerClass (plainClass name count) (plainRequest.options {}) =
      .ok ⟨plainImage name count, []⟩)
    (hencode : (Artifact.encode (plainImage name count)).isSome) :
    ∃ result, lower plainRequest {} (some json) = .ok result ∧
      Artifact.encode (plainImage name count) = some result.bytes := by
  obtain ⟨bytes, hbytes⟩ := Option.isSome_iff_exists.1 hencode
  exact ⟨_, lower_eq_ok_iff.2 ⟨json, _, _, _, bytes, rfl, hjson, hlower, rfl, hbytes, rfl⟩, hbytes⟩

/-- `inspect_lower` at a class with one method. -/
theorem inspect_plain : ∃ result, lower plainRequest {} (some plainText) = .ok result ∧
    inspect result.bytes = .ok (plainImage "A" 1).render := by
  have hjson : Ir.Class.ofText plainText = .ok (plainClass "A" 1) := by cbv
  have hlower : lowerClass (plainClass "A" 1) (plainRequest.options {}) =
      .ok ⟨plainImage "A" 1, []⟩ := by cbv
  obtain ⟨result, hresult, -⟩ :=
    exists_lower_plain plainText "A" 1 hjson hlower (by decide +kernel)
  obtain ⟨json, c, lowered, htext, hc, hlowered, -, hlisted, -⟩ := inspect_lower hresult
  obtain rfl := Option.some.inj htext
  obtain rfl := Except.ok.inj (hjson.symm.trans hc)
  obtain rfl := Except.ok.inj (hlower.symm.trans hlowered)
  exact ⟨result, hresult, (hlisted ⟨by decide, by decide⟩).2⟩

/-- What is written for a class without a name is refused, as it is for one with the same method
twice. -/
theorem inspect_refused :
    (∃ result, lower plainRequest {} (some namelessText) = .ok result ∧
      inspect result.bytes = .error .badArtifact) ∧
    ∃ result, lower plainRequest {} (some twinText) = .ok result ∧
      inspect result.bytes = .error .badArtifact := by
  constructor
  · obtain ⟨result, hresult, hencode⟩ :=
      exists_lower_plain namelessText "" 0 (by cbv) (by cbv) (by decide +kernel)
    exact ⟨result, hresult, (inspect_of_encode hencode).2 (by decide)⟩
  · obtain ⟨result, hresult, hencode⟩ :=
      exists_lower_plain twinText "A" 2 (by cbv) (by cbv) (by decide +kernel)
    exact ⟨result, hresult, (inspect_of_encode hencode).2 (by decide)⟩

end Texts

end BytecodeLowering.Command
