import BytecodeLowering.Proofs.Lowering.Placement

/-!
# Code of cut bodies

The code of a method whose blocks are the pieces of its statements.

* `lowerPiece`, `lowerBlock_run_iff`: the code of a piece, that of its statements behind its label,
  is the code of its block.
* `lowerBlocks_eq_ok`: the code of the blocks is that of the pieces, one after the other.
* `lowerMethod_of_parts`, `lowerMethod_of_stmts`: a method is lowered if its parts are, or if its
  statements are.
* `Emission`, `Emission.laidOut`: the code of the pieces under a layout, which binds the labels of
  the blocks where their code starts.
-/

namespace BytecodeLowering.Lowering

open Ir Machine

/-- What stands in front of a piece: its label, and the line that starts there. -/
def pieceStart (c : MethodContext) (lines : Bool) (seg : List Stmt) (k : Nat) : List Insn :=
  match c.labels.get? ⟨k⟩ with
  | none => []
  | some l =>
    .label l ::
      if lines then ((seg.head?.bind Stmt.line).map fun n => Insn.lineNumber n l).toList else []

/-- The code of a piece. -/
def lowerPiece (c : MethodContext) (lines : Bool) (x : List Stmt × Nat) : Lower (List Insn) := do
  let codes ← x.1.mapM fun s => lowerStmt c s.kind
  return pieceStart c lines x.1 x.2 ++ codes.flatten

variable {c : MethodContext} {lines : Bool} {p p' : Progress} {code : List Insn}

/-- What stands in front of a piece is the label of its block, or a line that starts there. -/
theorem exists_label_of_mem_pieceStart {seg : List Stmt} {k : Nat} {i : Insn}
    (h : i ∈ pieceStart c lines seg k) :
    ∃ l, c.labels.get? ⟨k⟩ = some l ∧ (i = .label l ∨ ∃ n, i = .lineNumber n l) := by
  unfold pieceStart at h
  split at h
  · cases h
  · rename_i l hl
    refine ⟨l, hl, (List.mem_cons.1 h).imp_right fun hi => ?_⟩
    split at hi
    · obtain ⟨n, -, rfl⟩ := Option.map_eq_some_iff.1 (Option.mem_toList.1 hi)
      exact ⟨n, rfl⟩
    · cases hi

/-- The code of a piece is that of its statements behind its start. -/
theorem lowerPiece_run_iff {seg : List Stmt} {k : Nat} :
    lowerPiece c lines (seg, k) p = .ok (code, p') ↔
      ∃ codes, Lowers (fun s : Stmt => lowerStmt c s.kind) p seg codes p' ∧
        pieceStart c lines seg k ++ codes.flatten = code := by
  simp only [lowerPiece, bind_run_iff, mapM_run_iff, pure_run_iff]
  grind

/-- The code of a piece is that of the last statement behind that of the others. -/
theorem lowerPiece_concat_iff {init : List Stmt} {last : Stmt} {k : Nat} :
    lowerPiece c lines (init ++ [last], k) p = .ok (code, p') ↔
      ∃ codes lastCode q, Lowers (fun s : Stmt => lowerStmt c s.kind) p init codes q ∧
        lowerStmt c last.kind q = .ok (lastCode, p') ∧
        pieceStart c lines (init ++ [last]) k ++ codes.flatten ++ lastCode = code := by
  rw [lowerPiece_run_iff]
  constructor
  · rintro ⟨codes, hcodes, rfl⟩
    obtain ⟨codes, lastCodes, q, hinit, hlast, rfl⟩ := Lowers.append_iff.1 hcodes
    rcases hlast with _ | ⟨hlast, hnil⟩
    cases hnil
    exact ⟨codes, _, q, hinit, hlast, by simp⟩
  · rintro ⟨codes, lastCode, q, hinit, hlast, rfl⟩
    exact ⟨codes ++ [lastCode], Lowers.append_iff.2 ⟨codes, [lastCode], q, hinit,
      .cons hlast .nil, rfl⟩, by simp⟩

variable {m : Method} {b : Body} {layout : Layout} {segs : List (List Stmt)} {title : String}

/-- Nothing stands behind a block. -/
theorem blockEnd_eq (hcut : Cut b segs) (h : Layout.ofBody b lines = .ok layout) {k : Nat}
    {block : Block} (hk : b.flow.blocks[k]? = some block) {labels : Labels} :
    blockEnd ⟨m, b, layout, labels⟩ block ⟨k⟩ = .ok [] := by
  obtain ⟨seg, hseg⟩ := hcut.exists_seg hk
  unfold blockEnd
  split
  · rfl
  · rename_i next hnext
    rw [Block.tail?, hcut.stmts_eq hk hseg, List.getLast?_map] at hnext
    obtain ⟨_, htail, hnext⟩ := Option.bind_eq_some_iff.1 hnext
    obtain ⟨last, hlast, rfl⟩ := Option.map_eq_some_iff.1 htail
    rw [if_pos (Layout.next?_of_continuation? hcut h hseg hlast hnext)]

/-- What stands in front of a block is what stands in front of its piece. -/
theorem blockStart_eq (hcut : Cut b segs) {k : Nat} {block : Block} {seg : List Stmt}
    (hk : b.flow.blocks[k]? = some block) (hs : segs[k]? = some seg) {labels : Labels} :
    blockStart ⟨m, b, layout, labels⟩ lines block ⟨k⟩ =
      pieceStart ⟨m, b, layout, labels⟩ lines seg k := by
  have hline : headLine? b block = seg.head?.bind Stmt.line := by
    rw [headLine?, Block.head?, hcut.stmts_eq hk hs]
    cases seg with
    | nil => rfl
    | cons s rest =>
      have hs := hcut.stmt?_eq (hcut.mem_stmts (List.mem_of_getElem? hs) List.mem_cons_self)
      simp [hs]
  cases hlabel : labels.get? ⟨k⟩ with
  | none => simp only [blockStart, pieceStart, hlabel]
  | some l => simp only [blockStart, pieceStart, hlabel, hline]

/-- Statements of the body that are looked up by their numbers are lowered one after the other. -/
theorem lowerStmts_run_iff (hcut : Cut c.body segs) {seg : List Stmt}
    (hseg : ∀ s ∈ seg, s ∈ c.body.stmts) :
    lowerStmts c title (seg.map Stmt.id) p = .ok (code, p') ↔
      ∃ codes, Lowers (fun s : Stmt => lowerStmt c s.kind) p seg codes p' ∧
        codes.flatten = code := by
  -- A statement of the body is what is found by its number.
  have hpair : List.Forall₂ (fun (s : Stmt) id => s ∈ seg ∧ s.id = id) seg (seg.map Stmt.id) :=
    List.forall₂_map_right_iff.2 (List.forall₂_same.2 fun s hs => ⟨hs, rfl⟩)
  constructor
  · intro h
    obtain ⟨codes, q, hcodes, h⟩ := bind_run_iff.1 h
    obtain ⟨rfl, rfl⟩ := pure_run_iff.1 h
    refine ⟨codes, (mapM_run_iff.1 hcodes).imp ?_ hpair, rfl⟩
    rintro s _ q y q' ⟨hs, rfl⟩ hrun
    simp only [hcut.stmt?_eq (hseg s hs)] at hrun
    exact inStmt_run_iff.1 hrun
  · rintro ⟨codes, hcodes, rfl⟩
    refine bind_run_iff.2
      ⟨codes, p', mapM_run_iff.2 (hcodes.imp ?_ hpair.flip), pure_run_iff.2 ⟨rfl, rfl⟩⟩
    rintro _ s q y q' ⟨hs, rfl⟩ hrun
    simp only [hcut.stmt?_eq (hseg s hs)]
    exact inStmt_run_iff.2 hrun

/-- A block is lowered as its piece is. -/
theorem lowerBlock_run_iff (hcut : Cut b segs) (h : Layout.ofBody b lines = .ok layout)
    {labels : Labels} {k : Nat} {seg : List Stmt} (hk : segs[k]? = some seg) :
    lowerBlock ⟨m, b, layout, labels⟩ title lines ⟨k⟩ p = .ok (code, p') ↔
      lowerPiece ⟨m, b, layout, labels⟩ lines (seg, k) p = .ok (code, p') := by
  obtain ⟨block, hblock⟩ := hcut.exists_block hk
  simp only [lowerBlock, hcut.block?_eq hblock, hcut.stmts_eq hblock hk, bind_run_iff,
    blockEnd_eq hcut h hblock, lift_run_iff, pure_run_iff, blockStart_eq hcut hblock hk,
    lowerPiece_run_iff, lowerStmts_run_iff (c := ⟨m, b, layout, labels⟩) hcut fun _ hs =>
      hcut.mem_stmts (List.mem_of_getElem? hk) hs]
  constructor
  · rintro ⟨_, q, ⟨codes, hcodes, rfl⟩, _, _, ⟨⟨⟩, rfl⟩, rfl, rfl⟩
    exact ⟨codes, hcodes, (List.append_nil _).symm⟩
  · rintro ⟨codes, hcodes, rfl⟩
    exact ⟨_, p', ⟨codes, hcodes, rfl⟩, [], p', ⟨rfl, rfl⟩, List.append_nil _, rfl⟩

/-- The blocks that are put down are those of the pieces, in their order. -/
theorem forall₂_zipIdx_order (hcut : Cut b segs) (h : Layout.ofBody b lines = .ok layout) :
    List.Forall₂ (fun (x : List Stmt × Nat) (id : BlockId) => segs[x.2]? = some x.1 ∧ id = ⟨x.2⟩)
      segs.zipIdx layout.order := by
  rw [Layout.order_eq hcut h, List.forall₂_iff_get]
  refine ⟨by simp, fun i hi hi' => ?_⟩
  simp

/-- The code of the blocks is that of the pieces, one after the other. -/
theorem lowerBlocks_eq_ok (hcut : Cut b segs) (h : Layout.ofBody b lines = .ok layout)
    {labels : Labels} {codes : List (List Insn)} {slots : Slots}
    (hrun : lowerBlocks ⟨m, b, layout, labels⟩ title lines = .ok (codes, slots)) :
    ∃ start pending, Slots.ofMethod m b = .ok start ∧
      Lowers (lowerPiece ⟨m, b, layout, labels⟩ lines) ⟨start, []⟩ segs.zipIdx codes
        ⟨slots, pending⟩ := by
  obtain ⟨start, hstart, hrun⟩ := bind_eq_ok_iff.1 hrun
  obtain ⟨⟨codes', p⟩, hcodes, hrun⟩ := bind_eq_ok_iff.1 hrun
  cases hrun
  refine ⟨start, p.pending, hstart,
    (mapM_run_iff.1 hcodes).imp ?_ (forall₂_zipIdx_order hcut h)⟩
  rintro ⟨seg, k⟩ _ q y q' ⟨hk, rfl⟩ hblock
  exact (lowerBlock_run_iff hcut h hk).1 hblock

/-- The blocks are lowered if the pieces are, one after the other. -/
theorem lowerBlocks_of_lowers (hcut : Cut b segs) (h : Layout.ofBody b lines = .ok layout)
    {labels : Labels} {codes : List (List Insn)} {start : Slots}
    (hstart : Slots.ofMethod m b = .ok start)
    (hrun : Lowers (lowerPiece ⟨m, b, layout, labels⟩ lines) ⟨start, []⟩ segs.zipIdx codes p) :
    lowerBlocks ⟨m, b, layout, labels⟩ title lines = .ok (codes, p.slots) := by
  refine bind_eq_ok_iff.2 ⟨start, hstart, bind_eq_ok_iff.2 ⟨(codes, p), ?_, rfl⟩⟩
  refine mapM_run_iff.2 (hrun.imp ?_ (forall₂_zipIdx_order hcut h).flip)
  rintro _ ⟨seg, k⟩ q y q' ⟨hk, rfl⟩ hpiece
  exact (lowerBlock_run_iff hcut h hk).2 hpiece

/-- A method is lowered if its parts are and the code can be measured. -/
theorem lowerMethod_of_parts {owner : ClassName} {options : Options} {argSlots : Nat}
    (hm : m.body = some b) (hlayout : Layout.ofBody b options.lineNumbers = .ok layout)
    {guards : List Guard} (hguards : layout.guards = .ok guards) {codes : List (List Insn)}
    {slots : Slots} (hcodes : lowerBlocks ⟨m, b, layout, layout.labels⟩ (methodTitle owner m)
      options.lineNumbers = .ok (codes, slots)) {sizes : Sizes}
    (hsizes : maxSizes (codes.flatten ++ (layout.labels.stop.map Insn.label).toList) guards
      argSlots = .ok sizes) :
    lowerMethod owner m options argSlots = .ok
      ⟨⟨codes.flatten ++ (layout.labels.stop.map Insn.label).toList, guards, sizes⟩, slots,
        layout.labels.blocks.length, layout.ranges.length⟩ := by
  rw [lowerMethod, mapError_eq_ok_iff, hm]
  refine bind_eq_ok_iff.2 ⟨layout, hlayout, bind_eq_ok_iff.2 ⟨guards, hguards,
    bind_eq_ok_iff.2 ⟨(codes, slots), hcodes, ?_⟩⟩⟩
  exact bind_eq_ok_iff.2 ⟨sizes, mapError_eq_ok_iff.2 hsizes, rfl⟩

/-- A method of one piece without labels is lowered if its statements are, one after the other, and
the code can be measured. -/
theorem lowerMethod_of_stmts {locals : List Local} {stmts : List Stmt} {traps : List Trap}
    {owner : ClassName} {options : Options} {argSlots : Nat} {start : Slots}
    {codes : List (List Insn)} {sizes : Sizes} (hb : Body.ofStmts locals stmts traps = .ok b)
    (hpieces : Flow.pieces stmts traps = [stmts]) (hm : m.body = some b)
    (hlayout : Layout.ofBody b options.lineNumbers = .ok layout)
    (hlabels : layout.labels = ⟨[], none⟩) (hranges : layout.ranges = [])
    (hstart : Slots.ofMethod m b = .ok start)
    (hrun : Lowers (fun s : Stmt => lowerStmt ⟨m, b, layout, ⟨[], none⟩⟩ s.kind) ⟨start, []⟩ stmts
      codes p) (hsizes : maxSizes codes.flatten [] argSlots = .ok sizes) :
    lowerMethod owner m options argSlots =
      .ok ⟨⟨codes.flatten, [], sizes⟩, p.slots, 0, 0⟩ := by
  have hcut := Cut.ofStmts hb
  rw [hpieces] at hcut
  have hpiece : lowerPiece ⟨m, b, layout, layout.labels⟩ options.lineNumbers (stmts, 0)
      ⟨start, []⟩ = .ok (codes.flatten, p) := by
    rw [hlabels]
    exact lowerPiece_run_iff.2 ⟨codes, hrun, rfl⟩
  have hblocks : lowerBlocks ⟨m, b, layout, layout.labels⟩ (methodTitle owner m)
      options.lineNumbers = .ok ([codes.flatten], p.slots) :=
    lowerBlocks_of_lowers hcut hlayout hstart (.cons hpiece .nil)
  have hguards : layout.guards = .ok [] := by
    rw [Layout.guards, hranges]
    rfl
  have hlower := lowerMethod_of_parts hm hlayout hguards hblocks
    (by simpa [hlabels] using hsizes)
  simpa [hlabels, hranges] using hlower

/-- The code of the pieces of a body under its layout. -/
structure Emission (m : Method) (b : Body) (lines : Bool) (layout : Layout)
    (segs : List (List Stmt)) (codes : List (List Insn)) (p p' : Progress) : Prop where
  /-- The body is cut into the pieces. -/
  cut : Cut b segs
  /-- The layout is that of the body. -/
  ofBody : Layout.ofBody b lines = .ok layout
  /-- The code is that of the pieces, one after the other. -/
  run : Lowers (lowerPiece ⟨m, b, layout, layout.labels⟩ lines) p segs.zipIdx codes p'

namespace Emission

variable {codes : List (List Insn)} {k : Nat} {seg : List Stmt} {l : Label} {q q' : Progress}

/-- The code of a method whose blocks are the pieces of its statements is that of the pieces. -/
theorem of_lowerMethod {locals : List Local} {stmts : List Stmt} {traps : List Trap}
    {owner : ClassName} {options : Options} {argSlots : Nat} {r : LoweredMethod}
    (hb : Body.ofStmts locals stmts traps = .ok b) (hm : m.body = some b)
    (h : lowerMethod owner m options argSlots = .ok r) :
    ∃ layout codes start pending, Slots.ofMethod m b = .ok start ∧
      Emission m b options.lineNumbers layout (Flow.pieces stmts traps) codes
        ⟨start, []⟩ ⟨r.slots, pending⟩ ∧
      lowerBlocks ⟨m, b, layout, layout.labels⟩ (methodTitle owner m) options.lineNumbers =
        .ok (codes, r.slots) ∧
      r.code.insns = codes.flatten ++ (layout.labels.stop.map Insn.label).toList ∧
      layout.guards = .ok r.code.guards := by
  obtain ⟨layout, codes, hlayout, hguards, hcodes, hinsns, -⟩ := lowerMethod_eq_ok hm h
  have hcut := Cut.ofStmts hb
  obtain ⟨start, pending, hstart, hrun⟩ := lowerBlocks_eq_ok hcut hlayout hcodes
  exact ⟨layout, codes, start, pending, hstart, ⟨hcut, hlayout, hrun⟩, hcodes, hinsns, hguards⟩

/-- No block is put down twice. -/
theorem nodup_order (he : Emission m b lines layout segs codes p p') : layout.order.Nodup :=
  Layout.nodup_order he.ofBody

/-- There is code for each piece. -/
theorem length_codes (he : Emission m b lines layout segs codes p p') :
    codes.length = segs.length := by
  simpa using he.run.length_eq

/-- A switch of the body has as many values as targets. -/
theorem switch_length (he : Emission m b lines layout segs codes p p') {s : Stmt}
    (hseg : segs[k]? = some seg) (hs : s ∈ seg) : ∀ key values targets default,
      s.kind = .switch key values targets default → values.length = targets.length :=
  fun _ _ _ _ hk => Layout.switch_length he.ofBody
    (he.cut.mem_stmts (List.mem_of_getElem? hseg) hs) hk

/-- The code of the statements of a piece is straight up to that of the last one. -/
theorem exists_last (he : Emission m b lines layout segs codes p p') (hseg : segs[k]? = some seg)
    {stmtCodes : List (List Insn)}
    (h : Lowers (fun s : Stmt => lowerStmt ⟨m, b, layout, layout.labels⟩ s.kind) q seg
      stmtCodes q') :
    ∃ init last initCodes lastCode r, seg = init ++ [last] ∧ stmtCodes = initCodes ++ [lastCode] ∧
      Lowers (fun s : Stmt => lowerStmt ⟨m, b, layout, layout.labels⟩ s.kind) q init initCodes r ∧
      Straight (fun _ => True) q initCodes.flatten r ∧
      lowerStmt ⟨m, b, layout, layout.labels⟩ last.kind r = .ok (lastCode, q') := by
  obtain ⟨init, last, rfl, hends⟩ := he.cut.exists_concat hseg
  obtain ⟨initCodes, lastCodes, r, hinit, hlast, rfl⟩ := Lowers.append_iff.1 h
  rcases hlast with _ | ⟨hrun, hnil⟩
  cases hnil
  exact ⟨init, last, initCodes, _, r, rfl, rfl, hinit, .flatten hinit fun s hs _ _ _ hstmt =>
    straight_of_lowerStmt (hends s hs) (by simp) (by simp) hstmt, hrun⟩

/-- Lowering a piece touches some locals. -/
theorem touches_of_lowerPiece (he : Emission m b lines layout segs codes p p')
    (hseg : segs[k]? = some seg)
    (h : lowerPiece ⟨m, b, layout, layout.labels⟩ lines (seg, k) q = .ok (code, q')) :
    Slots.Touches (fun _ => True) q.slots q'.slots := by
  obtain ⟨stmtCodes, hcodes, -⟩ := lowerPiece_run_iff.1 h
  refine hcodes.touches fun s hs q y q' hrun => ?_
  exact (isPlain_or_isExit_of_lowerStmt (by simp) (by simp) (by simp)
    (he.switch_length hseg hs) hrun).2

/-- The code at a place is that of the statements of the piece there, behind its start. -/
theorem exists_stmtCodes (he : Emission m b lines layout segs codes p p')
    (hk : codes[k]? = some code) : ∃ seg stmtCodes, segs[k]? = some seg ∧
      code = pieceStart ⟨m, b, layout, layout.labels⟩ lines seg k ++ stmtCodes ∧
      ∀ i ∈ stmtCodes, i.isPlain ∨ i.isExit := by
  obtain ⟨st, -, -, hst⟩ := he.run.exists_states
  have hlt : k < segs.length := he.length_codes ▸ (List.getElem?_eq_some_iff.1 hk).1
  have hseg : segs[k]? = some segs[k] := List.getElem?_eq_getElem hlt
  have hrun := hst k (segs[k], k) code (by simp [hseg]) hk
  obtain ⟨stmtCodes, hcodes, rfl⟩ := lowerPiece_run_iff.1 hrun
  refine ⟨_, stmtCodes.flatten, hseg, rfl, fun i hi => ?_⟩
  obtain ⟨stmtCode, hmem, hi⟩ := List.mem_flatten.1 hi
  obtain ⟨n, hn⟩ := List.getElem?_of_mem hmem
  obtain ⟨st', -, -, hst'⟩ := hcodes.exists_states
  have hlt : n < segs[k].length := hcodes.length_eq ▸ (List.getElem?_eq_some_iff.1 hn).1
  exact (isPlain_or_isExit_of_lowerStmt (P := fun _ => True) (by simp) (by simp) (by simp)
    (he.switch_length hseg (List.getElem_mem hlt))
    (hst' n segs[k][n] stmtCode (List.getElem?_eq_getElem hlt) hn)).1 i hi

/-- The block at a place of the layout has the number of the place. -/
theorem getElem?_order (he : Emission m b lines layout segs codes p p') (hk : k < codes.length) :
    layout.order[k]? = some ⟨k⟩ := by
  rw [he.length_codes] at hk
  simp [Layout.order_eq he.cut he.ofBody, hk]

/-- The code of the pieces binds the labels of their blocks. -/
theorem laidOut (he : Emission m b lines layout segs codes p p') : LaidOut layout codes := by
  obtain ⟨st, -, -, hst⟩ := he.run.exists_states
  refine ⟨he.nodup_order, List.forall₂_iff_get.2 ⟨?_, fun k hk hk' => ?_⟩⟩
  · simp [Layout.order_eq he.cut he.ofBody, he.length_codes]
  · have hlt : k < segs.length := he.length_codes ▸ hk'
    have hseg : segs[k]? = some segs[k] := List.getElem?_eq_getElem hlt
    have hrun := hst k (segs[k], k) codes[k] (by simp [hseg]) (List.getElem?_eq_getElem hk')
    have hblock : layout.order.get ⟨k, hk⟩ = ⟨k⟩ := by
      have horder := he.getElem?_order hk'
      rw [List.getElem?_eq_getElem hk] at horder
      exact Option.some.inj horder
    have hlowered : lowerBlock ⟨m, b, layout, layout.labels⟩ "" lines ⟨k⟩ (st k) =
        .ok (codes[k], st (k + 1)) :=
      (lowerBlock_run_iff he.cut he.ofBody hseg).2 hrun
    rw [hblock]
    exact heads_of_lowerBlock (c := ⟨m, b, layout, layout.labels⟩) he.ofBody hlowered

/-- The label of a block is bound where the code of the block starts, by the first instruction
there. -/
theorem place?_label (he : Emission m b lines layout segs codes p p')
    (hl : layout.labels.get? ⟨k⟩ = some l) (behind : List Insn) :
    ∃ rest, codes[k]? = some (.label l :: rest) ∧
      place? (codes.flatten ++ behind) l = some (startOf codes k) := by
  have hlt : k < codes.length := by
    have hmem := Layout.mem_order_of_get? hl
    rw [Layout.order_eq he.cut he.ofBody, ← he.length_codes] at hmem
    simpa using hmem
  exact he.laidOut.place?_label (he.getElem?_order hlt) hl behind

end Emission

end BytecodeLowering.Lowering
