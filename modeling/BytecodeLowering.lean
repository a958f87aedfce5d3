import BytecodeLowering.Command.Arguments
import BytecodeLowering.Command.FileName
import BytecodeLowering.Command.Run
import BytecodeLowering.Command.Settings
import BytecodeLowering.Ir.Body
import BytecodeLowering.Ir.Class
import BytecodeLowering.Ir.Expr
import BytecodeLowering.Ir.Flow
import BytecodeLowering.Ir.Operand
import BytecodeLowering.Ir.Read
import BytecodeLowering.Ir.Stmt
import BytecodeLowering.Ir.Ty
import BytecodeLowering.Ir.Write
import BytecodeLowering.Json.Basic
import BytecodeLowering.Json.Decode
import BytecodeLowering.Json.Reader
import BytecodeLowering.Lowering.Call
import BytecodeLowering.Lowering.Class
import BytecodeLowering.Lowering.Error
import BytecodeLowering.Lowering.Expr
import BytecodeLowering.Lowering.Layout
import BytecodeLowering.Lowering.Method
import BytecodeLowering.Lowering.Operand
import BytecodeLowering.Lowering.Options
import BytecodeLowering.Lowering.Selection
import BytecodeLowering.Lowering.Signature
import BytecodeLowering.Lowering.Slots
import BytecodeLowering.Lowering.Stmt
import BytecodeLowering.Machine.Artifact
import BytecodeLowering.Machine.Check
import BytecodeLowering.Machine.Code
import BytecodeLowering.Machine.Codec
import BytecodeLowering.Machine.Depth
import BytecodeLowering.Machine.Descriptor
import BytecodeLowering.Machine.Image
import BytecodeLowering.Machine.Insn
import BytecodeLowering.Machine.Listing
import BytecodeLowering.Machine.Opcode
import BytecodeLowering.Machine.Read
import BytecodeLowering.Machine.Write
import BytecodeLowering.Main
import BytecodeLowering.Number.Binary
import BytecodeLowering.Number.Decimal
import BytecodeLowering.Number.Shortest
import BytecodeLowering.Proofs.Command.Run
import BytecodeLowering.Proofs.Ir.Graph
import BytecodeLowering.Proofs.Ir.Restore.Class
import BytecodeLowering.Proofs.Lowering.Arguments
import BytecodeLowering.Proofs.Lowering.Class
import BytecodeLowering.Proofs.Lowering.Depth
import BytecodeLowering.Proofs.Lowering.Disjoint
import BytecodeLowering.Proofs.Lowering.Flow
import BytecodeLowering.Proofs.Lowering.Lines
import BytecodeLowering.Proofs.Lowering.Protection
import BytecodeLowering.Proofs.Lowering.Temporary
import BytecodeLowering.Proofs.Lowering.WellFormed
import BytecodeLowering.Proofs.Machine.Artifact
import BytecodeLowering.Proofs.Machine.Check
import BytecodeLowering.Proofs.Machine.Codec
import BytecodeLowering.Proofs.Machine.Fits
import BytecodeLowering.Proofs.Machine.Paths
import BytecodeLowering.Repeat
import BytecodeLowering.Text.Blank
import BytecodeLowering.Text.Glyph
import BytecodeLowering.Text.Hex
import BytecodeLowering.Text.Quoted
import BytecodeLowering.Toml.Basic
import BytecodeLowering.Toml.Quote
import BytecodeLowering.Toml.Reader
import BytecodeLowering.Proofs.Machine.Rejection
import BytecodeLowering.Proofs.Ir.Partition
import BytecodeLowering.Proofs.Lowering.Placement
import BytecodeLowering.Proofs.Lowering.Partition
import BytecodeLowering.Proofs.Lowering.Table
import BytecodeLowering.Proofs.Lowering.Walk
import BytecodeLowering.Proofs.Lowering.Labels
import BytecodeLowering.Proofs.Ir.Construction
import BytecodeLowering.Proofs.Lowering.Inert
import BytecodeLowering.Proofs.Lowering.Construction
import BytecodeLowering.Proofs.Lowering.Objects
import BytecodeLowering.Proofs.Lowering.Order
import BytecodeLowering.Proofs.Ir.Alias
import BytecodeLowering.Proofs.Lowering.Alias
import BytecodeLowering.Proofs.Lowering.Allocation
import BytecodeLowering.Proofs.Lowering.Access
import BytecodeLowering.Proofs.Lowering.Frame
import BytecodeLowering.Proofs.Lowering.Sequence
import BytecodeLowering.Proofs.Lowering.Renaming
import BytecodeLowering.Proofs.Lowering.Invariance
import BytecodeLowering.Proofs.Lowering.Dispatch
import BytecodeLowering.Proofs.Lowering.Overload
import BytecodeLowering.Proofs.Machine.Verdicts
import BytecodeLowering.Proofs.Machine.Buffer
import BytecodeLowering.Proofs.Lowering.Conversion
import BytecodeLowering.Proofs.Lowering.Footprint
import BytecodeLowering.Proofs.Lowering.Declared
import BytecodeLowering.Proofs.Machine.Stages
