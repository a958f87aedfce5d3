import BytecodeLowering.Proofs.Lowering.Renaming
import BytecodeLowering.Proofs.Lowering.Table

/-!
# Code of renamed block graphs

The code of a method does not depend on the numbers of its blocks, nor on the order in which the
graph lists them.

* `labels_rename`, `get?_rename`: renamed blocks have the labels of the blocks.
* `Renames.lowerStmt_eq`: statements are lowered in the same way.
* `Renames.mirrors_lowerBlock`, `Renames.mirrors_lowerBlocks`: so are blocks, under their numbers.
* `lowering_of_rewrites`: the layout is the renamed one, and the code is the same.
-/

namespace BytecodeLowering.Lowering

open Ir Machine

variable {f : BlockId → BlockId} {b b' : Body} {lines : Bool} {layout : Layout} {block : Block}
  {x : BlockId} {s : StmtId} {m : Method} {title : String} {p : Progress}

section Labels

/-- The labels of a renamed layout are those of the layout. -/
theorem labels_rename (hf : Function.Injective f) :
    (layout.rename f).labels = layout.labels.rename f := by
  have hneeds : ∀ x, (layout.rename f).needsLabel (f x) = layout.needsLabel x := by
    simp [Layout.needsLabel, Layout.rename, hf.eq_iff]
  have hlabelled : (layout.rename f).order.filter (layout.rename f).needsLabel =
      (layout.order.filter layout.needsLabel).map f := by
    rw [Layout.rename, List.filter_map]
    exact congrArg _ (List.filter_congr fun x _ => hneeds x)
  have hstop : (layout.rename f).needsEndLabel = layout.needsEndLabel := by
    rw [Layout.needsEndLabel, Layout.needsEndLabel, Layout.rename, List.any_map]
    refine congrArg₂ _ rfl (funext fun r => ?_)
    cases hr : r.stop <;> simp [TrapRange.rename, Boundary.rename, hr]
  -- Labels are numbered in the order of the layout, and not by the numbers of the blocks.
  rw [Layout.labels, Layout.labels, hlabelled, hstop, Labels.rename, List.zipIdx_map, List.map_map,
    List.map_map, List.length_map]
  rfl

/-- A renamed block has the label of the block. -/
theorem get?_rename (hf : Function.Injective f) {labels : Labels} :
    (labels.rename f).get? (f x) = labels.get? x := by
  rw [Labels.get?, Labels.get?, Labels.rename]
  induction labels.blocks with
  | nil => rfl
  | cons entry entries ih =>
    obtain ⟨y, l⟩ := entry
    rw [List.map_cons, Prod.map_apply, List.lookup_cons, List.lookup_cons, ih]
    simp [hf.eq_iff, Bool.beq_eq_decide_eq]

/-- A renamed block that has to have a label has that of the block. -/
theorem mirrors_get (hf : Function.Injective f) {labels : Labels} :
    Mirrors id (labels.get x) ((labels.rename f).get (f x)) := by
  rw [Labels.get, Labels.get, get?_rename hf]
  cases labels.get? x <;> rfl

/-- The entry of the exception table for a renamed range is that for the range. -/
theorem mirrors_guardOf (hf : Function.Injective f) {labels : Labels} {r : TrapRange} :
    Mirrors id (labels.guardOf r) ((labels.rename f).guardOf (r.rename f)) := by
  have hstop : Mirrors id (labels.boundary r.stop)
      ((labels.rename f).boundary (r.rename f).stop) := by
    rw [TrapRange.rename]
    cases r.stop with
    | block y => exact mirrors_get hf
    | methodEnd =>
      rw [Boundary.rename, Labels.boundary, Labels.boundary, Labels.rename]
      cases labels.stop <;> rfl
  exact (mirrors_get hf).bind fun start => hstop.bind fun stop =>
    (mirrors_get hf).bind fun handler => rfl

/-- The exception table of a renamed layout is that of the layout. -/
theorem mirrors_guards (hf : Function.Injective f) :
    Mirrors id layout.guards (layout.rename f).guards := by
  rw [Layout.guards, Layout.guards, labels_rename hf]
  have hguards : Mirrors (List.map id) (layout.ranges.mapM layout.labels.guardOf)
      ((layout.ranges.map (TrapRange.rename f)).mapM (layout.labels.rename f).guardOf) :=
    .mapM fun r _ => mirrors_guardOf hf
  rwa [List.map_id_fun] at hguards

end Labels

section Steps

variable {α β γ : Type}

/-- Going on from steps that mirror each other. -/
theorem mirrors_run_bind {u v : Lower α} {k k' : α → Lower β} (h : Mirrors id (u p) (v p))
    (hk : ∀ a q, Mirrors id (k a q) (k' a q)) : Mirrors id ((u >>= k) p) ((v >>= k') p) :=
  h.bind fun a => hk a.1 a.2

/-- A step taken on the elements of a list one after the other, and on what they are changed to. -/
theorem mirrors_run_mapM {F : α → γ} {k : α → Lower β} {k' : γ → Lower β} {xs : List α}
    (hk : ∀ a q, Mirrors id (k a q) (k' (F a) q)) :
    Mirrors id (xs.mapM k p) ((xs.map F).mapM k' p) := by
  induction xs generalizing p with
  | nil => rfl
  | cons a xs ih =>
    rw [List.map_cons, List.mapM_cons, List.mapM_cons]
    refine mirrors_run_bind (hk a p) fun c q => ?_
    exact mirrors_run_bind ih fun cs q => rfl

end Steps

namespace Renames

variable (h : Renames f b b')

/-- The context of the statements of a method whose body is written in another way. -/
abbrev context (f : BlockId → BlockId) (m : Method) (b' : Body) (layout : Layout) : MethodContext :=
  ⟨{ m with body := some b' }, b', layout.rename f, layout.labels.rename f⟩

include h

/-- A branch target has the same label. -/
theorem targetLabel_eq :
    targetLabel (context f m b' layout) s = targetLabel ⟨m, b, layout, layout.labels⟩ s := by
  simp only [targetLabel, blockOf, h.owner?]
  cases b.flow.owner? s with
  | none => rfl
  | some x =>
    simp only [Option.map_some, bind, Except.bind, get?_rename h.injective]

/-- A goto is lowered in the same way. -/
theorem lowerGoto_eq :
    lowerGoto (context f m b' layout) s = lowerGoto ⟨m, b, layout, layout.labels⟩ s := by
  simp only [lowerGoto, blockOf, h.owner?, h.stmt?_eq]
  cases b.flow.owner? s with
  | none => rfl
  | some x =>
    simp only [Option.map_some, lift_ok, pure_bind, get?_rename h.injective]
    rfl

/-- A statement is lowered in the same way. -/
theorem lowerStmt_eq (k : StmtKind) :
    lowerStmt (context f m b' layout) k = lowerStmt ⟨m, b, layout, layout.labels⟩ k := by
  -- Of the context, branches read the labels of blocks, and identities which locals are read.
  cases k with
  | identity l source =>
    cases source with
    | parameter index t =>
      simp only [lowerStmt, lowerIdentity, lowerParameter, Body.usesLocal, h.stmts]
      rfl
    | _ => rfl
  | branch cond target => simp only [lowerStmt, lowerBranch, h.targetLabel_eq]
  | goto target => exact h.lowerGoto_eq
  | switch key values targets default => simp only [lowerStmt, lowerSwitch, h.targetLabel_eq]
  | _ => rfl

/-- The statements of a block are lowered in the same way. -/
theorem lowerStmts_eq {ids : List StmtId} : lowerStmts (context f m b' layout) title ids =
    lowerStmts ⟨m, b, layout, layout.labels⟩ title ids := by
  simp only [lowerStmts, h.stmt?_eq, h.lowerStmt_eq]

/-- The same stands in front of a renamed block. -/
theorem blockStart_eq : blockStart (context f m b' layout) lines (block.rename f) (f x) =
    blockStart ⟨m, b, layout, layout.labels⟩ lines block x := by
  have hline : headLine? b' (block.rename f) = headLine? b block := by
    simp only [headLine?, h.stmt?_eq]
    rfl
  simp only [blockStart, get?_rename h.injective, hline]

/-- The same jump stands behind a renamed block. -/
theorem mirrors_blockEnd : Mirrors id (blockEnd ⟨m, b, layout, layout.labels⟩ block x)
    (blockEnd (context f m b' layout) (block.rename f) (f x)) := by
  have hcontinuation : ∀ s, (layout.rename f).continuation? s = (layout.continuation? s).map f := by
    intro s
    rw [Layout.continuation?, Layout.continuation?, Layout.rename, ← List.map_reverse,
      List.find?_map, Option.map_map, Option.map_map]
    rfl
  have hnext : (layout.rename f).next? (f x) = (layout.next? x).map f := nextIn?_map h.injective
  have htail : (block.rename f).tail?.bind (layout.rename f).continuation? =
      (block.tail?.bind layout.continuation?).map f := by
    change block.tail?.bind _ = _
    cases block.tail? with
    | none => rfl
    | some s => exact hcontinuation s
  simp only [blockEnd, htail, hnext]
  cases block.tail?.bind layout.continuation? with
  | none => rfl
  | some next =>
    simp only [Option.map_some]
    have hsame : ((layout.next? x).map f = some (f next)) = (layout.next? x = some next) := by
      cases layout.next? x <;> simp [h.injective.eq_iff]
    simp only [hsame]
    split
    · rfl
    · exact (mirrors_get h.injective).map fun l => rfl

/-- A renamed block is lowered in the same way. -/
theorem mirrors_lowerBlock : Mirrors id (lowerBlock ⟨m, b, layout, layout.labels⟩ title lines x p)
    (lowerBlock (context f m b' layout) title lines (f x) p) := by
  simp only [lowerBlock, h.first?]
  cases b.flow.block? x with
  | none => rfl
  | some block =>
    simp only [Option.map_some, h.blockStart_eq]
    refine mirrors_run_bind ?_ fun code q => ?_
    · rw [Block.stmts_rename, h.lowerStmts_eq]
      exact .refl
    · exact mirrors_run_bind (h.mirrors_blockEnd.bind fun last => rfl) fun last q => rfl

/-- The blocks of a renamed layout are lowered in the same way. -/
theorem mirrors_lowerBlocks : Mirrors id (lowerBlocks ⟨m, b, layout, layout.labels⟩ title lines)
    (lowerBlocks (context f m b' layout) title lines) := by
  have hslots : Slots.ofMethod { m with body := some b' } b' = Slots.ofMethod m b := by
    simp only [Slots.ofMethod, Body.defs, h.stmts]
    rfl
  simp only [lowerBlocks, hslots]
  refine Mirrors.bind .refl fun slots => ?_
  have hcodes : Mirrors id
      ((layout.order.mapM (lowerBlock ⟨m, b, layout, layout.labels⟩ title lines)).run ⟨slots, []⟩)
      (((layout.order.map f).mapM (lowerBlock (context f m b' layout) title lines)).run
        ⟨slots, []⟩) := mirrors_run_mapM fun x q => h.mirrors_lowerBlock
  exact hcodes.bind fun r => rfl

/-- A method whose body is written in another way is lowered to the same code. -/
theorem mirrors_lowerBody {argSlots : Nat} : Mirrors id (lowerBody title m b lines argSlots)
    (lowerBody title { m with body := some b' } b' lines argSlots) := by
  refine h.mirrors_ofBody.bind fun layout => ?_
  dsimp only
  refine (mirrors_guards h.injective).bind fun guards => ?_
  rw [labels_rename h.injective]
  refine h.mirrors_lowerBlocks.bind fun r => ?_
  refine Mirrors.bind .refl fun sizes => ?_
  simp [Mirrors, Labels.rename, Layout.rename]

end Renames

/-- The layout and the code of a method depend on its statements and on which blocks they are in,
and neither on the numbers of the blocks nor on the order in which the graph lists them. If each
statement is in one block, the layout of the graph under other numbers is the layout under these
numbers, and the method is lowered to the same code, or it is refused with both graphs. -/
theorem lowering_of_rewrites (hstmts : (b.stmts.map Stmt.id).Nodup)
    (hids : (b.flow.blocks.map Block.id).Nodup)
    (honce : ∀ s ∈ b.stmts, (b.flow.blocks.map Block.stmts).flatten.count s.id = 1)
    (h : b.Rewrites f b') :
    (∀ lines, (Layout.ofBody b' lines).toOption =
      (Layout.ofBody b lines).toOption.map (Layout.rename f)) ∧
    ∀ owner m options argSlots, m.body = some b →
      (lowerMethod owner { m with body := some b' } options argSlots).toOption =
        (lowerMethod owner m options argSlots).toOption := by
  by_cases hcheck : checkBlocks b = .ok ()
  · -- All that the blocks list is in the list, so that nothing is listed twice.
    have hpartitioned : b.Partitioned := by
      refine ⟨hstmts, hids, List.nodup_iff_count_le_one.2 fun id => ?_⟩
      by_cases hid : id ∈ (b.flow.blocks.map Block.stmts).flatten
      · obtain ⟨ids, hids, hid⟩ := List.mem_flatten.1 hid
        obtain ⟨block, hblock, rfl⟩ := List.mem_map.1 hids
        obtain ⟨stmt, hstmt⟩ := (checkBlocks_eq_ok_iff.1 hcheck block hblock).2 id hid
        obtain ⟨hmem, rfl⟩ := Body.mem_of_stmt? hstmt
        exact (honce stmt hmem).le
      · rw [List.count_eq_zero_of_not_mem hid]
        exact Nat.zero_le 1
    have hrenames := renames_of_rewrites hpartitioned hcheck h
    refine ⟨fun lines => hrenames.mirrors_ofBody, fun owner m options argSlots hm => ?_⟩
    have hmirrors : Mirrors id (lowerMethod owner m options argSlots)
        (lowerMethod owner { m with body := some b' } options argSlots) := by
      simp only [lowerMethod, hm]
      exact hrenames.mirrors_lowerBody.mapError
    rw [Mirrors, Option.map_id] at hmirrors
    exact hmirrors
  · -- Neither graph passes the check of the blocks.
    have hlayout : ∀ lines layout, Layout.ofBody b lines ≠ .ok layout := fun lines layout hok =>
      hcheck (checkBlocks_eq_ok_iff.2 (Layout.ofBody_eq_ok hok).checked)
    have hlayout' : ∀ lines layout, Layout.ofBody b' lines ≠ .ok layout := fun lines layout hok =>
      hcheck ((checkBlocks_iff_of_rewrites h).1
        (checkBlocks_eq_ok_iff.2 (Layout.ofBody_eq_ok hok).checked))
    refine ⟨fun lines => Mirrors.of_ne_ok (hlayout lines) (hlayout' lines),
      fun owner m options argSlots hm => ?_⟩
    have hmirrors : Mirrors id (lowerMethod owner m options argSlots)
        (lowerMethod owner { m with body := some b' } options argSlots) := by
      refine .of_ne_ok (fun r hr => ?_) fun r hr => ?_
      · obtain ⟨layout, -, hok, -⟩ := lowerMethod_eq_ok hm hr
        exact hlayout _ layout hok
      · obtain ⟨layout, -, hok, -⟩ := lowerMethod_eq_ok rfl hr
        exact hlayout' _ layout hok
    rw [Mirrors, Option.map_id] at hmirrors
    exact hmirrors

section Retold

/-- Other numbers for blocks. -/
def renumber (x : BlockId) : BlockId :=
  ⟨3 * x.val + 4⟩

/-- The body of `retry` with its graph written in another way. -/
def retoldBody : Body :=
  { retryBody with
    flow := ⟨[⟨⟨10⟩, [⟨2⟩], [⟨4⟩], []⟩, ⟨⟨7⟩, [⟨0⟩, ⟨1⟩], [⟨7⟩], [⟨⟨"java.lang.Error"⟩, ⟨10⟩⟩,
      ⟨⟨"E"⟩, ⟨10⟩⟩, ⟨⟨"java.lang.Error"⟩, ⟨10⟩⟩]⟩,
      ⟨⟨4⟩, [⟨3⟩, ⟨4⟩], [], [⟨⟨"java.lang.Error"⟩, ⟨10⟩⟩]⟩]⟩ }

/-- `lowering_of_rewrites` at the body of `retry`, whose blocks get other numbers and are listed in
another order. -/
theorem lowering_retold :
    (retryBody.stmts.map Stmt.id).Nodup ∧ (retryBody.flow.blocks.map Block.id).Nodup ∧
      (∀ s ∈ retryBody.stmts, (retryBody.flow.blocks.map Block.stmts).flatten.count s.id = 1) ∧
      retryBody.Rewrites renumber retoldBody ∧
      lowerMethod ⟨"A"⟩ retry { lineNumbers := false } 0 = .ok retryCode ∧
      (lowerMethod ⟨"A"⟩ { retry with body := some retoldBody }
        { lineNumbers := false } 0).toOption = some retryCode ∧
      (Layout.ofBody retoldBody false).toOption =
        (Layout.ofBody retryBody false).toOption.map (Layout.rename renumber) := by
  have hstmts : (retryBody.stmts.map Stmt.id).Nodup := by decide
  have hids : (retryBody.flow.blocks.map Block.id).Nodup := by decide
  have honce : ∀ s ∈ retryBody.stmts,
      (retryBody.flow.blocks.map Block.stmts).flatten.count s.id = 1 := by decide
  have hrenumber : Function.Injective renumber := by
    intro x y hxy
    have hval : 3 * x.val + 4 = 3 * y.val + 4 := congrArg BlockId.val hxy
    cases x
    cases y
    simp_all
  have hrewrites : retryBody.Rewrites renumber retoldBody := ⟨hrenumber, rfl, rfl, by decide⟩
  have hlowered : lowerMethod ⟨"A"⟩ retry { lineNumbers := false } 0 = .ok retryCode := by cbv
  obtain ⟨hlayout, hcode⟩ := lowering_of_rewrites hstmts hids honce hrewrites
  refine ⟨hstmts, hids, honce, hrewrites, hlowered, ?_, hlayout false⟩
  rw [hcode ⟨"A"⟩ retry { lineNumbers := false } 0 rfl, hlowered]
  rfl

end Retold

end BytecodeLowering.Lowering
