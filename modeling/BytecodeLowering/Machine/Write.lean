import BytecodeLowering.Json.Basic
import BytecodeLowering.Machine.Image

/-!
# Writing declarations

The JSON form of the headers of classes and methods and of handles.

* `ClassHeader.toJson`, `MethodHeader.toJson`, `Handle.toJson`: the JSON values.
-/

namespace BytecodeLowering.Machine

/-- The JSON form of a 16-bit word. -/
def wordJson (w : UInt16) : Json :=
  .ofNat w.toNat

/-- The JSON form of the header of a class. -/
def ClassHeader.toJson (h : ClassHeader) : Json :=
  .record [("version", wordJson h.version), ("access", wordJson h.access),
    ("name", .ofString h.name), ("super_name", .ofOption Json.ofString h.superName),
    ("interfaces", .ofList Json.ofString h.interfaces)]

/-- The JSON form of the header of a method. -/
def MethodHeader.toJson (h : MethodHeader) : Json :=
  .record [("access", wordJson h.access), ("name", .ofString h.name), ("desc", .ofString h.desc),
    ("exceptions", .ofList Json.ofString h.exceptions)]

/-- The JSON form of a handle. -/
def Handle.toJson (h : Handle) : Json :=
  .record [("tag", .ofString h.tag.keyword), ("owner", .ofString h.owner),
    ("name", .ofString h.name), ("desc", .ofString h.desc), ("interface", .bool h.interface)]

end BytecodeLowering.Machine
