import BytecodeLowering.Proofs.Machine.Fits
import BytecodeLowering.Proofs.Result

/-!
# Artifacts are lossless and canonical

* `Artifact.behindHeader_eq_ok_iff`, `Artifact.read_eq_ok_iff`: which bytes are an artifact, and of
  which class.
* `Artifact.decode_of_encode`: what is written for a class is read back iff the class passes the
  checks.
* `Artifact.read_encode`: what is written for a class is read back as that class, whatever comes
  behind it, and nothing is read from a part of it.
* `Artifact.consumed`, `Artifact.consumed_of_read`: the bytes that are read are those that are
  written for the class.
-/

namespace BytecodeLowering.Machine

namespace Artifact

/-- A payload whose numbers, texts and lists fit. -/
@[mk_iff]
structure File.Fits (f : File) : Prop where
  version : Codec.WidthFits 4 f.version
  image : f.image.Fits

theorem File.lawful_codec : File.codec.Lawful File.Fits :=
  ((Codec.lawful_nat 4).pair ClassImage.lawful_codec).record fun f => (File.fits_iff f).symm

/-- The header of every artifact. -/
def header : Bytes :=
  magic ++ Codec.bytesOf 4 version

variable {bytes rest e : Bytes} {f : File} {c : ClassImage}

theorem encode_eq_some_iff :
    encode c = some e ↔ ∃ b, File.codec.put ⟨version, c⟩ = some b ∧ e = header ++ b := by
  rw [encode, Option.map_eq_some_iff]
  simp only [header, eq_comm]

/-- A class has an artifact iff it fits. -/
theorem exists_encode_iff : (∃ e, encode c = some e) ↔ c.Fits := by
  simp only [encode_eq_some_iff]
  constructor
  · rintro ⟨_, b, hput, rfl⟩
    exact ((File.lawful_codec.put_iff _).1 ⟨b, hput⟩).image
  · intro hfits
    obtain ⟨b, hput⟩ := (File.lawful_codec.put_iff ⟨version, c⟩).2
      ⟨show Codec.WidthFits 4 1 by decide, hfits⟩
    exact ⟨header ++ b, b, hput, rfl⟩

theorem behindHeader_eq_ok_iff : behindHeader bytes = .ok rest ↔ bytes = header ++ rest := by
  constructor
  · intro h
    rw [behindHeader] at h
    split at h
    case isTrue => cases h
    case isFalse =>
    split at h
    case isTrue => cases h
    case isFalse hmagic =>
    split at h
    case h_1 => cases h
    case h_2 found rest' hnat =>
    split at h
    case isTrue => cases h
    case isFalse hversion =>
    cases h
    -- All tests have passed: the bytes start with the magic number, then the version.
    obtain ⟨-, hdrop⟩ := Codec.natOf_eq_some_iff.1 hnat
    rw [← bytes.take_append_drop 4, hdrop, not_not.1 hmagic, not_not.1 hversion, header,
      List.append_assoc]
  · rintro rfl
    -- Nothing is wrong with the header that is written.
    have hlen : ¬(header ++ rest).length < 8 := by
      rw [List.length_append]
      exact Nat.not_lt.2 (Nat.le_add_right 8 _)
    have hmagic : (header ++ rest).take 4 = magic := rfl
    have hnat : Codec.natOf 4 ((header ++ rest).drop 4) = some (version, rest) :=
      Codec.natOf_eq_some_iff.2 ⟨by decide, rfl⟩
    rw [behindHeader, if_neg hlen, if_neg (not_not.2 hmagic), hnat]
    rfl

/-- Bytes are the artifact of a class iff they start with what is written for it and it passes the
checks. -/
theorem read_eq_ok_iff : read bytes = .ok f ↔ f.version = version ∧ f.image.check = .ok () ∧
    ∃ e rest, encode f.image = some e ∧ bytes = e ++ rest := by
  rw [read, bind_eq_ok_iff]
  simp only [behindHeader_eq_ok_iff]
  constructor
  · rintro ⟨payload, rfl, h⟩
    split at h
    case h_1 => cases h
    case h_2 file rest hget =>
    split at h
    case isTrue => cases h
    case isFalse hversion =>
    obtain ⟨⟨⟩, hcheck, rfl⟩ := map_eq_ok_iff.1 h
    -- The codec only reads what it writes, so that the payload starts with `b`.
    obtain ⟨b, hput, rfl⟩ := (File.lawful_codec.get_iff _ _ _).1 hget
    obtain ⟨found, image⟩ := file
    obtain rfl : found = version := not_not.1 hversion
    exact ⟨rfl, mapError_eq_ok_iff.1 hcheck, header ++ b, rest,
      encode_eq_some_iff.2 ⟨b, hput, rfl⟩, (List.append_assoc _ _ _).symm⟩
  · obtain ⟨found, image⟩ := f
    rintro ⟨rfl, hcheck, e, rest, hencode, rfl⟩
    obtain ⟨b, hput, rfl⟩ := encode_eq_some_iff.1 hencode
    refine ⟨b ++ rest, List.append_assoc _ _ _, ?_⟩
    rw [File.lawful_codec.get_append hput]
    simp only [ne_eq, not_true_eq_false, if_false, hcheck]
    rfl

/-- What is written for a class is read back as that class iff it passes the checks, and is refused
for the one that it does not pass. -/
theorem decode_of_encode (hencode : encode c = some e) :
    decode e = (c.check.mapError .format).map fun _ => c := by
  obtain ⟨b, hput, rfl⟩ := encode_eq_some_iff.1 hencode
  have hget : File.codec.get b = some (⟨version, c⟩, []) := by
    simpa using File.lawful_codec.get_append hput []
  have hread : read (header ++ b) = (c.check.mapError .format).map fun _ => ⟨version, c⟩ := by
    simp only [read, behindHeader_eq_ok_iff.2 rfl, bind, Except.bind, hget, ne_eq, not_true_eq_false,
      if_false]
  rw [decode, hread]
  cases c.check <;> rfl

/-- Bytes of a payload that are cut short are refused. -/
theorem read_prefix {p : Bytes} (hencode : encode c = some e) (hp : p <+: e) (hne : p ≠ e) :
    read p = .error (if p.length < 8 then .format .shortHeader else .undecodable) := by
  obtain ⟨b, hput, rfl⟩ := encode_eq_some_iff.1 hencode
  by_cases hlen : p.length < 8
  · rw [if_pos hlen, read, behindHeader, if_pos hlen]
    rfl
  · -- The header is there in full, and what is cut short is the payload.
    have hheader : header <+: p :=
      List.prefix_of_prefix_length_le (List.prefix_append _ _) hp (Nat.not_lt.1 hlen)
    obtain ⟨p', rfl⟩ := hheader
    rw [List.prefix_append_right_inj] at hp
    have hne' : p' ≠ b := by
      rintro rfl
      exact hne rfl
    rw [if_neg hlen, read]
    refine bind_eq_error_iff.2 (.inr ⟨p', behindHeader_eq_ok_iff.2 rfl, ?_⟩)
    rw [File.lawful_codec.get_eq_none_of_prefix hput hp hne']

/-- What is written for a class that passes the checks is read back as that class, whatever comes
behind it. Bytes that are cut short are refused, within the header as well as within the payload. -/
theorem read_encode (hfits : c.Fits) (hcheck : c.check = .ok ()) :
    ∃ e, encode c = some e ∧ (∀ rest, read (e ++ rest) = .ok ⟨1, c⟩) ∧
      ∀ p, p <+: e → p ≠ e →
        read p = .error (if p.length < 8 then .format .shortHeader else .undecodable) := by
  obtain ⟨e, hencode⟩ := exists_encode_iff.2 hfits
  refine ⟨e, hencode, ?_, fun p => read_prefix hencode⟩
  intro rest
  rw [read_eq_ok_iff]
  exact ⟨rfl, hcheck, e, rest, hencode, rfl⟩

/-- A class with a constant, a branch, a guarded stretch of code and the default of an annotation
element. -/
def sample : ClassImage where
  header := ⟨52, 0x21, "A", some "B", ["C"]⟩
  fields := [⟨0x19, "c", "D", some (.double ⟨0x7ff8000000000001⟩)⟩]
  methods := [
    ⟨⟨0x08, "f", "(I)I", ["E"]⟩,
      some ⟨[.label ⟨0⟩, .var .iload 0, .tableSwitch (-1) 0 ⟨1⟩ [⟨0⟩, ⟨1⟩], .label ⟨1⟩,
          .ldc (.str "s"), .simple .pop, .int .bipush (-3), .simple .ireturn],
        [⟨⟨0⟩, ⟨1⟩, ⟨1⟩, none⟩], ⟨1, 1⟩⟩,
      none⟩,
    ⟨⟨0x401, "g", "()V", []⟩, none, some (.array [.nested "L" [("k", .boolean true)], .int 7])⟩]

/-- `read_encode` at `sample`. -/
theorem sample_read_encode : sample.Fits ∧ sample.check = .ok () ∧
    ∃ e, encode sample = some e ∧ (∀ rest, read (e ++ rest) = .ok ⟨1, sample⟩) ∧
      ∀ p, p <+: e → p ≠ e →
        read p = .error (if p.length < 8 then .format .shortHeader else .undecodable) := by
  -- That everything fits shows in that something is written.
  have hencode : (encode sample).isSome := by decide +kernel
  have hfits : sample.Fits := exists_encode_iff.1 (Option.isSome_iff_exists.1 hencode)
  have hcheck : sample.check = .ok () := by cbv
  exact ⟨hfits, hcheck, read_encode hfits hcheck⟩

/-- The bytes of an artifact that are read: all in front of what its payload leaves over. -/
def consumed (bytes : Bytes) : Option Bytes :=
  (File.codec.get (bytes.drop 8)).map fun (_, rest) => bytes.take (bytes.length - rest.length)

theorem consumed_of_read (h : read bytes = .ok f) : consumed bytes = encode f.image := by
  obtain ⟨hversion, -, e, rest, hencode, rfl⟩ := read_eq_ok_iff.1 h
  obtain ⟨b, hput, rfl⟩ := encode_eq_some_iff.1 hencode
  have hdrop : (header ++ b ++ rest).drop 8 = b ++ rest := rfl
  rw [← hversion] at hput
  rw [consumed, hdrop, File.lawful_codec.get_append hput, hencode, Option.map_some]
  show some ((header ++ b ++ rest).take ((header ++ b ++ rest).length - rest.length)) = _
  rw [List.length_append, Nat.add_sub_cancel, List.take_left]

/-- Artifacts are canonical: bytes that are read as a class start with what is written for it, and
that is what is read of them. All bytes that are read as the same class agree on what is read. -/
theorem read_canonical (h : read bytes = .ok f) :
    ∃ e, encode f.image = some e ∧ e <+: bytes ∧ consumed bytes = some e ∧
      ∀ bytes' f', read bytes' = .ok f' → f'.image = f.image → consumed bytes' = some e := by
  obtain ⟨-, -, e, rest, hencode, rfl⟩ := read_eq_ok_iff.1 h
  refine ⟨e, hencode, List.prefix_append _ _, ?_, ?_⟩
  · rw [consumed_of_read h, hencode]
  · intro bytes' f' h' himage
    rw [consumed_of_read h', himage, hencode]

/-- An interface with one method, which has a default. -/
def marker : ClassImage where
  header := ⟨52, 0x600, "M", none, []⟩
  fields := []
  methods := [⟨⟨0x401, "v", "()Z", []⟩, none, some (.boolean true)⟩]

/-- The artifact of `marker`. -/
def markerBytes : Bytes :=
  [70, 74, 67, 76, 1, 0, 0, 0, 1, 0, 0, 0, 52, 0, 0, 6, 1, 0, 0, 0, 0, 0, 0, 0, 77, 0, 0, 0, 0,
    0, 0, 0, 0, 0, 0, 0, 0, 0, 0, 0, 0, 0, 1, 0, 0, 0, 0, 0, 0, 0, 1, 4, 1, 0, 0, 0, 0, 0, 0, 0,
    118, 3, 0, 0, 0, 0, 0, 0, 0, 40, 41, 90, 0, 0, 0, 0, 0, 0, 0, 0, 0, 1, 0, 0, 0, 0, 1]

/-- `read_canonical` at the artifact of `marker` with another byte behind it. -/
theorem marker_canonical : read (markerBytes ++ [7]) = .ok ⟨1, marker⟩ ∧
    ∃ e, encode marker = some e ∧ e <+: markerBytes ++ [7] ∧
      consumed (markerBytes ++ [7]) = some e ∧
      ∀ bytes' f', read bytes' = .ok f' → f'.image = marker → consumed bytes' = some e := by
  have hencode : encode marker = some markerBytes := by decide +kernel
  have hread : read (markerBytes ++ [7]) = .ok ⟨1, marker⟩ :=
    read_eq_ok_iff.2 ⟨rfl, by cbv, markerBytes, [7], hencode, rfl⟩
  have hcanonical := read_canonical hread
  exact ⟨hread, hcanonical⟩

end Artifact

end BytecodeLowering.Machine
