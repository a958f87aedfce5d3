import BytecodeLowering.Proofs.Lowering.LineLayout

/-!
# Methods with and without line numbers

The statements of a method are lowered from state to state in the same way with line numbers and
without them, where no return that stands in place of a goto gives a local its place.

* `Redirects`: the goto statements that become returns without line numbers only.
* `Leaves`, `Settled`: such a return does not give a local its place, and returns it from the place
  that it has behind the return itself.
* `Runs`: the pieces of a body are lowered from state to state.
* `runs_iff`: whether they are does not depend on line numbers.
-/

namespace BytecodeLowering.Lowering

open Ir Machine

/-- What the statements of a method are lowered in view of under a layout. -/
abbrev contextOf (m : Method) (b : Body) (layout : Layout) : MethodContext :=
  ⟨m, b, layout, layout.labels⟩

/-- A goto that becomes a return without line numbers only: that is a block by itself, which has no
label then and starts on a known line. -/
structure Redirects (b : Body) (layout : Layout) (s ret : Stmt) (j : Nat) : Prop where
  /-- The goto leads to the return. -/
  kind : s.kind = .goto ret.id
  /-- The return is a statement of the body. -/
  mem : ret ∈ b.stmts
  /-- The block of the return. -/
  owner : b.flow.owner? ret.id = some ⟨j⟩
  /-- It has no label without line numbers. -/
  unlabelled : layout.needsLabel ⟨j⟩ = false
  /-- It starts on a known line. -/
  line : hasLine b ⟨j⟩

/-- What the first statements of a method leave behind. -/
def Leaves (c : MethodContext) (i : Nat) (p : Progress) : Prop :=
  ∃ start codes, Slots.ofMethod c.method c.body = .ok start ∧
    Lowers (fun s : Stmt => lowerStmt c s.kind) ⟨start, []⟩ (c.body.stmts.take i) codes p

/-- Every return that a goto becomes without line numbers only returns nothing, a constant, or a
local that has its place in front of the goto. Another name for a caught exception has the same
place there as behind the return itself. -/
structure Settled (m : Method) (b : Body) (layout : Layout) : Prop where
  /-- What is returned has its place in front of the goto. -/
  bound : ∀ i s ret j, b.stmts[i]? = some s → Redirects b layout s ret j → ∀ l ∈ ret.kind.uses,
    ∀ p, Leaves (contextOf m b layout) i p → p.slots.binding? l ≠ none
  /-- What can be moved in between is not. With line numbers, the return is lowered by itself. -/
  unmoved : ∀ i n s ret j, b.stmts[i]? = some s → b.stmts[n]? = some ret →
    Redirects b layout s ret j → ∀ l ∈ ret.kind.uses, l.role = .handlerRef → ∀ p q,
      Leaves (contextOf m b (layout.withLines b)) i p →
      Leaves (contextOf m b (layout.withLines b)) (n + 1) q →
      p.slots.binding? l = q.slots.binding? l

/-- The pieces of a body are lowered from state to state. -/
def Runs (c : MethodContext) (lines : Bool) (segs : List (List Stmt)) (st : Nat → Progress) :
    Prop :=
  ∀ k seg, segs[k]? = some seg → ∃ code, lowerPiece c lines (seg, k) (st k) = .ok (code, st (k + 1))

variable {m : Method} {b : Body} {lines : Bool} {layout layout' : Layout} {segs : List (List Stmt)}
  {codes : List (List Insn)} {p p' q q' : Progress} {c : MethodContext} {code : List Insn}
  {s ret last : Stmt} {j k n : Nat} {seg init : List Stmt} {st : Nat → Progress}

section States

variable {α β : Type} {f : α → Lower β} {xs : List α}

/-- Steps from state to state are taken one after the other. -/
theorem Lowers.of_states (hn : n ≤ xs.length)
    (h : ∀ k < n, ∀ x, xs[k]? = some x → ∃ y, f x (st k) = .ok (y, st (k + 1))) :
    ∃ ys, Lowers f (st 0) (xs.take n) ys (st n) ∧
      ∀ k x y, xs[k]? = some x → ys[k]? = some y → f x (st k) = .ok (y, st (k + 1)) := by
  induction n with
  | zero => exact ⟨[], by rw [List.take_zero]; exact .nil, by simp⟩
  | succ n ih =>
    obtain ⟨ys, hys, hstep⟩ := ih (Nat.le_of_succ_le hn) fun k hk => h k (Nat.lt_succ_of_lt hk)
    have hx : xs[n]? = some xs[n] := List.getElem?_eq_getElem hn
    obtain ⟨y, hy⟩ := h n (Nat.lt_succ_self n) _ hx
    have hlength : ys.length = n := by
      rw [hys.length_eq, List.length_take_of_le (Nat.le_of_succ_le hn)]
    refine ⟨ys ++ [y], ?_, fun k x' y' hx' hy' => ?_⟩
    · rw [List.take_succ_eq_append_getElem hn]
      exact Lowers.append_iff.2 ⟨ys, [y], st n, hys, .cons hy .nil, rfl⟩
    · rcases Nat.lt_trichotomy k n with hlt | rfl | hgt
      · rw [List.getElem?_append_left (hlength ▸ hlt)] at hy'
        exact hstep k x' y' hx' hy'
      · rw [← hlength, List.getElem?_concat_length] at hy'
        cases hx.symm.trans hx'
        cases hy'
        exact hy
      · rw [List.getElem?_eq_none (by simp; omega)] at hy'
        cases hy'

end States

section Pieces

/-- The statements of pieces are lowered one after the other. -/
theorem exists_lowers_flatten {xs : List (List Stmt × Nat)}
    (h : Lowers (lowerPiece c lines) p xs codes p') :
    ∃ stmtCodes, Lowers (fun s : Stmt => lowerStmt c s.kind) p (xs.map Prod.fst).flatten stmtCodes
      p' := by
  induction h with
  | nil => exact ⟨[], .nil⟩
  | @cons _ _ _ x _ _ _ hx _ ih =>
    obtain ⟨stmtCodes, hstmts, -⟩ := lowerPiece_run_iff.1 hx
    obtain ⟨rest, hrest⟩ := ih
    exact ⟨stmtCodes ++ rest, Lowers.append_iff.2 ⟨_, _, _, hstmts, hrest, rfl⟩⟩

/-- A statement without targets is lowered in the same way under all layouts. -/
theorem lowerStmt_contextOf (layout' : Layout) (h : s.kind.targets = []) :
    lowerStmt (contextOf m b layout) s.kind = lowerStmt (contextOf m b layout') s.kind := by
  cases hkind : s.kind with
  | branch | goto | switch => simp [hkind, StmtKind.targets] at h
  | _ => rfl

/-- So are the statements of a piece in front of its last one. -/
theorem lowers_contextOf (layout' : Layout) (hinit : ∀ s ∈ init, s.kind.endsBlock = false)
    (h : Lowers (fun s : Stmt => lowerStmt (contextOf m b layout) s.kind) p init codes p') :
    Lowers (fun s : Stmt => lowerStmt (contextOf m b layout') s.kind) p init codes p' := by
  refine h.imp (R := fun s s' => s = s' ∧ s.kind.targets = []) ?_
    (List.forall₂_same.2 fun s hs => ⟨rfl, (StmtKind.straight_of_not_endsBlock (hinit s hs)).2⟩)
  rintro s _ q y q' ⟨rfl, htargets⟩ hrun
  rwa [lowerStmt_contextOf layout htargets]

end Pieces

section Redirects

variable (hcut : Cut b segs) (hlayout : Layout.ofBody b false = .ok layout)

include hcut hlayout

/-- The return that a goto is redirected to is a block by itself. -/
theorem Redirects.lone (h : Redirects b layout s ret j) (hs : s ∈ b.stmts) :
    segs[j]? = some [ret] ∧ ret.kind.isReturn := by
  obtain ⟨i, s', rest, howner, hi, hid⟩ := hcut.owner?_target hs (t := ret.id)
    (by simp [h.kind, StmtKind.targets])
  cases howner.symm.trans h.owner
  obtain rfl := hcut.stmt_inj (hcut.mem_stmts (List.mem_of_getElem? hi) List.mem_cons_self) h.mem
    hid
  -- A goto leads to a block without a label only if that is a lone return.
  obtain ⟨rfl, hreturn⟩ := Layout.lone_of_goto hcut hlayout hs h.kind hi rfl h.unlabelled
  exact ⟨hi, hreturn⟩

/-- With line numbers, the block has a label. -/
theorem Redirects.exists_label (h : Redirects b layout s ret j) (hs : s ∈ b.stmts) :
    layout.labels.get? ⟨j⟩ = none ∧ ∃ l, (layout.withLines b).labels.get? ⟨j⟩ = some l := by
  have hnodup := Layout.nodup_order hlayout
  have horder := (Layout.mem_order_iff hcut hlayout).2
    (List.getElem?_eq_some_iff.1 (h.lone hcut hlayout hs).1).1
  refine ⟨(Layout.get?_labels_eq_none_iff hnodup horder).2 h.unlabelled, ?_⟩
  exact Option.ne_none_iff_exists'.1 ((Layout.get?_withLines_ne_none_iff hnodup).2
    (.inr ⟨horder, h.line⟩))

/-- Without line numbers, the goto is lowered as the return. -/
theorem Redirects.lowerStmt_iff (h : Redirects b layout s ret j) (hs : s ∈ b.stmts) :
    lowerStmt (contextOf m b layout) s.kind p = .ok (code, p') ↔
      lowerStmt (contextOf m b layout) ret.kind p = .ok (code, p') := by
  obtain ⟨-, hreturn⟩ := h.lone hcut hlayout hs
  have hnone := (h.exists_label hcut hlayout hs).1
  have hret := hcut.stmt?_eq h.mem
  rw [h.kind]
  refine lowerGoto_run_iff.trans ?_
  simp only [h.owner, Option.some.injEq, exists_eq_left', hnone, reduceCtorEq, false_and,
    exists_false, true_and, false_or, hret]
  cases hkind : ret.kind with
  | «return» op => simp [lowerStmt]
  | returnVoid => simp [lowerStmt]
  | _ => simp [hkind, StmtKind.isReturn] at hreturn

/-- With line numbers, it is lowered as a jump to the label of the return. -/
theorem Redirects.exists_jump (h : Redirects b layout s ret j) (hs : s ∈ b.stmts) :
    ∃ l, (layout.withLines b).labels.get? ⟨j⟩ = some l ∧ ∀ code p',
      lowerStmt (contextOf m b (layout.withLines b)) s.kind p = .ok (code, p') ↔
        [.jump .goto l] = code ∧ p = p' := by
  obtain ⟨-, l, hl⟩ := h.exists_label hcut hlayout hs
  refine ⟨l, hl, fun code p' => ?_⟩
  rw [h.kind]
  refine lowerGoto_run_iff.trans ?_
  simp [h.owner, hl]

/-- The targets of other statements have labels with line numbers and without them, or in neither
case. -/
theorem labelled_iff (hs : s ∈ b.stmts) (hnot : ∀ ret j, ¬Redirects b layout s ret j) {t : StmtId}
    (ht : t ∈ s.kind.targets) : (∃ l, targetLabel (contextOf m b layout) t = .ok l) ↔
      ∃ l, targetLabel (contextOf m b (layout.withLines b)) t = .ok l := by
  have hnodup := Layout.nodup_order hlayout
  obtain ⟨j, s', rest, howner, hj, rfl⟩ := hcut.owner?_target hs ht
  have hget : ∀ layout : Layout, (∃ l, targetLabel (contextOf m b layout) s'.id = .ok l) ↔
      layout.labels.get? ⟨j⟩ ≠ none := by
    intro layout
    simp [targetLabel_eq_ok_iff, howner, Option.ne_none_iff_exists']
  rw [hget, hget, Layout.get?_withLines_ne_none_iff hnodup]
  refine (or_iff_left_of_imp ?_).symm
  rintro ⟨horder, hline⟩
  rw [Layout.get?_labels_ne_none_iff hnodup]
  refine ⟨horder, ?_⟩
  -- Only the target of a goto may lack a label.
  by_cases hgoto : ∃ t, s.kind = .goto t
  · obtain ⟨t, hkind⟩ := hgoto
    obtain rfl : s'.id = t := by simpa [hkind, StmtKind.targets] using ht
    by_contra hneeds
    exact hnot s' j ⟨hkind, hcut.mem_stmts (List.mem_of_getElem? hj) List.mem_cons_self, howner,
      by simpa using hneeds, hline⟩
  · exact Layout.needsLabel_of_target hlayout hs (not_exists.1 hgoto) ht howner

/-- A statement that is no such goto is lowered with line numbers and without them to code with the
same effect. -/
theorem exists_twin (hs : s ∈ b.stmts) (hnot : ∀ ret j, ¬Redirects b layout s ret j)
    (h : lowerStmt (contextOf m b layout) s.kind p = .ok (code, p')) :
    ∃ code', lowerStmt (contextOf m b (layout.withLines b)) s.kind p = .ok (code', p') ∧
      Alike code code' ∧ (code = [] ↔ code' = []) :=
  exists_relabelled (fun _ ht => labelled_iff hcut hlayout hs hnot ht)
    (fun _ _ _ _ hk => Layout.switch_length hlayout hs hk) h

end Redirects

section Runs

variable (hcut : Cut b segs) (hlayout : Layout.ofBody b false = .ok layout)

/-- One more statement leaves behind what it is lowered to. -/
theorem Leaves.snoc {i : Nat} (h : Leaves c i p) (hs : c.body.stmts[i]? = some s)
    (hrun : lowerStmt c s.kind p = .ok (code, p')) : Leaves c (i + 1) p' := by
  obtain ⟨start, codes, hstart, hcodes⟩ := h
  obtain ⟨hlt, rfl⟩ := List.getElem?_eq_some_iff.1 hs
  refine ⟨start, codes ++ [code], hstart, ?_⟩
  rw [List.take_succ_eq_append_getElem hlt]
  exact Lowers.append_iff.2 ⟨codes, [code], p, hcodes, .cons hrun .nil, rfl⟩

include hcut

/-- What the statements in front of the last one of a piece leave behind. -/
theorem leaves_of_runs {start : Slots} (hstart : Slots.ofMethod m b = .ok start)
    (hst : st 0 = ⟨start, []⟩) (hseg : segs[k]? = some (init ++ [last]))
    (hbelow : ∀ i < k, ∀ seg, segs[i]? = some seg →
      ∃ code, lowerPiece (contextOf m b layout) lines (seg, i) (st i) = .ok (code, st (i + 1)))
    (hinit : Lowers (fun s : Stmt => lowerStmt (contextOf m b layout) s.kind) (st k) init codes q) :
    ∃ i, b.stmts[i]? = some last ∧ Leaves (contextOf m b layout) i q := by
  have hk := (List.getElem?_eq_some_iff.1 hseg).1
  have hle : k ≤ segs.zipIdx.length := by simpa using hk.le
  obtain ⟨pieces, hpieces, -⟩ := Lowers.of_states hle fun i hi x hx => by
    obtain ⟨seg, hseg, rfl⟩ := Option.map_eq_some_iff.1 (List.getElem?_zipIdx ▸ hx)
    simpa using hbelow i hi seg hseg
  obtain ⟨front, hfront⟩ := exists_lowers_flatten hpieces
  rw [List.map_take, List.zipIdx_map_fst] at hfront
  refine ⟨_, hcut.getElem?_piece hseg, start, front ++ codes, hstart, ?_⟩
  -- In front of the statement are the pieces before its own, and what is before it in that.
  have hsplit : b.stmts.take ((segs.take k).flatten.length + init.length) =
      (segs.take k).flatten ++ init := by
    rw [hcut.stmts_split hseg, List.append_assoc, List.append_assoc, List.take_length_add_append,
      List.take_left]
  rw [hsplit, ← hst]
  exact Lowers.append_iff.2 ⟨front, codes, st k, hfront, hinit, rfl⟩

variable (hsettled : Settled m b layout) {start : Slots} (hstart : Slots.ofMethod m b = .ok start)
  (hst : st 0 = ⟨start, []⟩)

include hlayout hsettled hstart hst

/-- Another name for a caught exception that is returned in place of a goto has the same place
behind both, if the pieces are lowered with line numbers. -/
theorem binding?_of_unmoved (hseg : segs[k]? = some (init ++ [last]))
    (hr : Redirects b layout last ret j)
    (h : Runs (contextOf m b (layout.withLines b)) true segs st) {l : Local}
    (hl : l ∈ ret.kind.uses) (hrole : l.role = .handlerRef) :
    (st (k + 1)).slots.binding? l = (st (j + 1)).slots.binding? l := by
  have hmem : last ∈ b.stmts := hcut.mem_stmts (List.mem_of_getElem? hseg) (by simp)
  have hj : segs[j]? = some ([] ++ [ret]) := (hr.lone hcut hlayout hmem).1
  obtain ⟨code, hcode⟩ := h k _ hseg
  obtain ⟨codes, lastCode, q, hinit, hlast, -⟩ := lowerPiece_concat_iff.1 hcode
  obtain ⟨own, hown⟩ := h j _ hj
  obtain ⟨_, retCode, r, hnil, hret, -⟩ := lowerPiece_concat_iff.1 hown
  -- The goto is a jump, so that the state behind it is the one in front of it.
  obtain ⟨_, -, hjump⟩ := hr.exists_jump hcut hlayout hmem (m := m) (p := q)
  obtain ⟨-, rfl⟩ := (hjump _ _).1 hlast
  obtain ⟨i, hi, hleaves⟩ := leaves_of_runs hcut hstart hst hseg (fun i _ => h i) hinit
  obtain ⟨n, hn, hleaves'⟩ := leaves_of_runs hcut hstart hst hj (fun i _ => h i) hnil
  exact hsettled.unmoved i n last ret j hi hn hr l hl hrole _ _ hleaves (hleaves'.snoc hn hret)

end Runs

end BytecodeLowering.Lowering
