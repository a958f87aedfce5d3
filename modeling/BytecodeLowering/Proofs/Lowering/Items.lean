import BytecodeLowering.Proofs.Ir.Width
import BytecodeLowering.Proofs.Lowering.Method
import Mathlib.Algebra.BigOperators.Group.List.Basic

/-!
# Code of single statements

The code of a method cut into that of its statements.

* `Items`: the code of statements one after the other, each behind labels and line numbers.
* `Items.of_pieces`: the code of the pieces of a body is that of their statements.
* `Emission.exists_items`: the code of the blocks by statements.
* `Listing`, `Emission.exists_listing`: the code of a method by its statements, with the places of
  the labels.
-/

namespace BytecodeLowering.Lowering

open Ir Machine

/-- The code of statements one after the other, each behind labels and line numbers. -/
inductive Items (c : MethodContext) :
    Progress → List Stmt → List (List Insn) → Progress → Prop
  | nil {p : Progress} : Items c p [] [] p
  | cons {p p' p'' : Progress} {s : Stmt} {stmts : List Stmt} {front code : List Insn}
      {items : List (List Insn)} :
      (∀ i ∈ front, i.isMark) → lowerStmt c s.kind p = .ok (code, p') →
      Items c p' stmts items p'' → Items c p (s :: stmts) ((front ++ code) :: items) p''

namespace Items

variable {c : MethodContext} {p p' p'' : Progress} {stmts stmts' : List Stmt}
  {items items' : List (List Insn)} {P : Local → Prop}

/-- There is code for each statement. -/
theorem length_eq (h : Items c p stmts items p') : items.length = stmts.length := by
  induction h with
  | nil => rfl
  | cons _ _ _ ih => simp [ih]

/-- The code of two lists of statements is that of the first, then that of the second. -/
theorem append (h : Items c p stmts items p') (h' : Items c p' stmts' items' p'') :
    Items c p (stmts ++ stmts') (items ++ items') p'' := by
  induction h with
  | nil => exact h'
  | cons hfront hcode _ ih => exact .cons hfront hcode (ih h')

/-- So it comes apart into the two. -/
theorem exists_split (h : Items c p (stmts ++ stmts') items p'') :
    ∃ front back p', items = front ++ back ∧ Items c p stmts front p' ∧
      Items c p' stmts' back p'' := by
  induction stmts generalizing p items with
  | nil => exact ⟨[], items, p, rfl, .nil, h⟩
  | cons s stmts ih =>
    cases h with
    | cons hfront hcode hrest =>
      obtain ⟨front, back, p', rfl, hstmts, hback⟩ := ih hrest
      exact ⟨_ :: front, back, p', rfl, .cons hfront hcode hstmts, hback⟩

/-- Statements that are lowered one after the other have code without labels. -/
theorem of_lowers {codes : List (List Insn)}
    (h : Lowers (fun s : Stmt => lowerStmt c s.kind) p stmts codes p') :
    Items c p stmts codes p' := by
  induction h with
  | nil => exact .nil
  | cons hcode _ ih =>
    have hfront : ∀ i ∈ ([] : List Insn), i.isMark := List.forall_mem_nil _
    exact .cons hfront hcode ih

/-- What stands in front of a piece is a label and a line number at most. -/
theorem isMark_pieceStart (lines : Bool) (seg : List Stmt) (k : Nat) :
    ∀ i ∈ pieceStart c lines seg k, i.isMark := by
  intro i hi
  obtain ⟨l, -, rfl | ⟨n, rfl⟩⟩ := exists_label_of_mem_pieceStart hi <;> rfl

/-- The code of a piece is that of its statements; its label belongs to the first one. -/
theorem exists_of_piece {lines : Bool} {seg : List Stmt} {k : Nat} {code : List Insn}
    (hseg : seg ≠ []) (h : lowerPiece c lines (seg, k) p = .ok (code, p')) :
    ∃ items, Items c p seg items p' ∧ items.flatten = code := by
  obtain ⟨codes, hcodes, rfl⟩ := lowerPiece_run_iff.1 h
  cases hcodes with
  | nil => exact absurd rfl hseg
  | cons hcode hrest =>
    exact ⟨_, .cons (isMark_pieceStart lines _ k) hcode (of_lowers hrest),
      by rw [List.flatten_cons, List.flatten_cons, List.append_assoc]⟩

/-- The code of pieces is that of their statements. -/
theorem of_pieces {lines : Bool} {pieces : List (List Stmt × Nat)} {codes : List (List Insn)}
    (hnil : [] ∉ pieces.map Prod.fst) (h : Lowers (lowerPiece c lines) p pieces codes p') :
    ∃ itemss : List (List (List Insn)), Items c p (pieces.map Prod.fst).flatten itemss.flatten p' ∧
      itemss.map List.flatten = codes ∧
      itemss.map List.length = (pieces.map Prod.fst).map List.length := by
  induction h with
  | nil => exact ⟨[], .nil, rfl, rfl⟩
  | @cons _ _ _ x _ _ _ hcode _ ih =>
    rw [List.map_cons, List.mem_cons, not_or] at hnil
    obtain ⟨seg, k⟩ := x
    obtain ⟨items, hitems, rfl⟩ := exists_of_piece (Ne.symm hnil.1) hcode
    obtain ⟨itemss, hrest, rfl, hlength⟩ := ih hnil.2
    exact ⟨items :: itemss, hitems.append hrest, rfl, by simp [hitems.length_eq, hlength]⟩

/-- Lowering statements changes the places of the locals that lowering each of them changes. -/
theorem touches (h : Items c p stmts items p')
    (htouch : ∀ s ∈ stmts, ∀ q code q', lowerStmt c s.kind q = .ok (code, q') →
      Slots.Touches P q.slots q'.slots) : Slots.Touches P p.slots p'.slots := by
  induction h with
  | nil => exact .refl
  | cons _ hcode _ ih =>
    obtain ⟨hhead, htail⟩ := List.forall_mem_cons.1 htouch
    exact (hhead _ _ _ hcode).trans (ih htail)

/-- The code of a statement, with the changes to the places of locals in front of it and behind
it. -/
theorem exists_code (h : Items c p stmts items p')
    (htouch : ∀ s ∈ stmts, ∀ q code q', lowerStmt c s.kind q = .ok (code, q') →
      Slots.Touches P q.slots q'.slots) {j : Nat} {s : Stmt} (hj : stmts[j]? = some s) :
    ∃ front code q q', items[j]? = some (front ++ code) ∧ (∀ i ∈ front, i.isMark) ∧
      lowerStmt c s.kind q = .ok (code, q') ∧ Slots.Touches P p.slots q.slots ∧
      Slots.Touches P q'.slots p'.slots := by
  induction h generalizing j with
  | nil => simp at hj
  | cons hfront hcode hrest ih =>
    obtain ⟨hhead, htail⟩ := List.forall_mem_cons.1 htouch
    cases j with
    | zero =>
      cases hj
      exact ⟨_, _, _, _, rfl, hfront, hcode, .refl, hrest.touches htail⟩
    | succ j =>
      obtain ⟨front, code, q, q', hget, hfront', hcode', hbefore, hbehind⟩ := ih htail hj
      exact ⟨front, code, q, q', hget, hfront', hcode', (hhead _ _ _ hcode).trans hbefore, hbehind⟩

end Items

/-- The code of a method by its statements: `items` are the parts of `insns`, and the places of the
locals change from `start` to `final`. -/
structure Listing (P : Local → Prop) (c : MethodContext) (insns : List Insn)
    (items : List (List Insn)) (start final : Slots) : Prop where
  /-- Nothing that does something stands behind the code of the statements. -/
  tail : ∃ tail, (∀ i ∈ tail, i.isMark) ∧ insns = items.flatten ++ tail
  /-- There is code for each statement. -/
  length_eq : items.length = c.body.stmts.length
  /-- The places of the locals change for locals of the given kind only. -/
  touches : Slots.Touches P start final
  /-- It is that of the statement behind labels and line numbers. -/
  code : ∀ (j : Nat) (s : Stmt), c.body.stmts[j]? = some s →
    ∃ front code p p', items[j]? = some (front ++ code) ∧ (∀ i ∈ front, i.isMark) ∧
      lowerStmt c s.kind p = .ok (code, p') ∧ Slots.Touches P start p.slots ∧
      Slots.Touches P p'.slots final
  /-- The targets of a statement exist, and the label of a target is where its code starts. -/
  target : ∀ s ∈ c.body.stmts, ∀ t ∈ s.kind.targets, ∃ (j : Nat) (s' : Stmt),
    c.body.position? t = some j ∧ c.body.stmts[j]? = some s' ∧ s'.id = t ∧
      c.body.stmt? t = some s' ∧
      ∀ l, targetLabel c t = .ok l → place? insns l = some (startOf items j)

namespace Emission

variable {m : Method} {b : Body} {lines : Bool} {layout : Layout} {segs : List (List Stmt)}
  {codes : List (List Insn)} {p p' : Progress} {P : Local → Prop}

/-- Lowering a statement of a body touches locals of the body. -/
theorem touches_of_lowerStmt (he : Emission m b lines layout segs codes p p')
    (hP : ∀ s ∈ b.stmts, ∀ l, s.kind.Mentions l → P l) {s : Stmt} (hs : s ∈ b.stmts)
    {q q' : Progress} {code : List Insn}
    (h : lowerStmt ⟨m, b, layout, layout.labels⟩ s.kind q = .ok (code, q')) :
    Slots.Touches P q.slots q'.slots := by
  obtain ⟨k, seg, hseg, hmem⟩ := he.cut.exists_seg_of_mem hs
  refine (isPlain_or_isExit_of_lowerStmt (fun l hl => hP s hs l (.inl hl))
    (fun l hl => hP s hs l (.inr hl)) ?_ (he.switch_length hseg hmem) h).2
  intro t s' _ hs' l hl
  exact hP s' (Body.mem_of_stmt? hs').1 l (.inl hl)

/-- The code of the blocks is that of the statements, and that of a block starts with its head. -/
theorem exists_items (he : Emission m b lines layout segs codes p p') :
    ∃ items, Items ⟨m, b, layout, layout.labels⟩ p b.stmts items p' ∧
      items.flatten = codes.flatten ∧
      ∀ k, startOf items (headPlace segs k) = startOf codes k := by
  have hfst : segs.zipIdx.map Prod.fst = segs := List.zipIdx_map_fst 0 segs
  obtain ⟨itemss, hitems, hcodes, hlength⟩ :=
    Items.of_pieces (by rw [hfst]; exact he.cut.nil_notMem) he.run
  rw [hfst, he.cut.flatten] at hitems
  rw [hfst] at hlength
  refine ⟨itemss.flatten, hitems, by rw [List.flatten_flatten, hcodes], fun k => ?_⟩
  -- The statements in front of the block have the code of the blocks in front of it.
  have hfront : (itemss.flatten.take (headPlace segs k)).flatten = (codes.take k).flatten := by
    rw [headPlace, List.length_flatten, List.map_take, ← hlength, List.take_sum_flatten,
      List.flatten_flatten, List.map_take, hcodes]
  rw [startOf, startOf, hfront]

/-- The code of a method is that of its statements. -/
theorem exists_listing (he : Emission m b lines layout segs codes p p')
    (hP : ∀ s ∈ b.stmts, ∀ l, s.kind.Mentions l → P l) :
    ∃ items, Listing P ⟨m, b, layout, layout.labels⟩
      (codes.flatten ++ (layout.labels.stop.map Insn.label).toList) items p.slots p'.slots := by
  obtain ⟨items, hitems, hflatten, hstart⟩ := he.exists_items
  have htouch : ∀ s ∈ b.stmts, ∀ q code q',
      lowerStmt ⟨m, b, layout, layout.labels⟩ s.kind q = .ok (code, q') →
        Slots.Touches P q.slots q'.slots := fun s hs _ _ _ h => he.touches_of_lowerStmt hP hs h
  refine ⟨items, ?_, hitems.length_eq, hitems.touches htouch,
    fun j s hj => hitems.exists_code htouch hj, fun s hs t ht => ?_⟩
  · refine ⟨_, fun i hi => ?_, by rw [hflatten]⟩
    obtain ⟨l, -, rfl⟩ := Option.map_eq_some_iff.1 (Option.mem_toList.1 hi)
    rfl
  · obtain ⟨k, s', rest, howner, hk, rfl⟩ := he.cut.owner?_target hs ht
    have hj := he.cut.getElem?_head hk
    refine ⟨_, s', he.cut.position?_eq hj, hj, rfl,
      he.cut.stmt?_eq (List.mem_of_getElem? hj), fun l hl => ?_⟩
    obtain ⟨x, hx, hget⟩ := targetLabel_eq_ok_iff.1 hl
    obtain rfl := Option.some.inj (howner.symm.trans hx)
    obtain ⟨-, -, hplace⟩ := he.place?_label hget (layout.labels.stop.map Insn.label).toList
    rw [hplace, ← hstart k, headPlace]

end Emission

end BytecodeLowering.Lowering
