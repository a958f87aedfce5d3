import BytecodeLowering.Proofs.Lowering.Flow
import BytecodeLowering.Proofs.Lowering.Protection
import BytecodeLowering.Proofs.Machine.Alike

/-!
# Code in chunks

Code that control enters at the starts of its chunks and leaves at their ends, such as that of the
blocks of a method, and the depths of the operand stack with which it does so.

* `Outline`, `Enters`: where control goes on behind the chunks of some code, and the depths with
  which it enters them.
* `Chunked`: the code follows an outline.
* `Steady`: every chunk is entered with one depth only, which suffices for its code.
* `Chunked.steady`, `Steady.no_fault`: code in chunks is steady iff it has no fault on a path.
* `Steady.depths_eq`: the depths of such code are those that its chunks are passed with.
-/

namespace BytecodeLowering.Lowering

open Ir Machine

/-- Where control goes on behind the chunks of some code. -/
structure Outline where
  /-- Control goes from one chunk to another by a jump. -/
  jumps : Nat → Nat → Prop
  /-- Control goes on from a chunk to the one behind it. -/
  falls : Nat → Prop
  /-- Control comes to a chunk by an exception. -/
  catches : Nat → Prop

/-- The chunks that control enters, with the depths of the operand stack in front of them. -/
inductive Enters (o : Outline) (xs : List (List Insn)) : Nat → Nat → Prop
  | first : xs.flatten ≠ [] → Enters o xs 0 0
  | handler {k : Nat} : o.catches k → Enters o xs k 1
  | jump {k j d e : Nat} {x : List Insn} : Enters o xs k d → xs[k]? = some x →
      depthAfter d x = some e → o.jumps k j → Enters o xs j e
  | next {k d e : Nat} {x : List Insn} : Enters o xs k d → xs[k]? = some x →
      depthAfter d x = some e → o.falls k → k + 1 < xs.length → Enters o xs (k + 1) e

/-- Code whose chunks are entered at their starts and left at their ends, as an outline says. -/
structure Chunked (o : Outline) (xs : List (List Insn)) (guards : List Guard) : Prop where
  /-- Control passes all instructions of a chunk but the last one. -/
  passes : ∀ x ∈ xs, ∀ i ∈ x.dropLast, Passes i
  /-- A jump leads to the start of a chunk. -/
  target : ∀ {k : Nat} {x : List Insn} {i : Insn} {l : Label}, xs[k]? = some x → i ∈ x →
    l ∈ i.targets → ∃ j, o.jumps k j ∧ place? xs.flatten l = some (startOf xs j)
  /-- The jumps of the outline are in the code. -/
  jump : ∀ {k j : Nat} {x : List Insn}, xs[k]? = some x → o.jumps k j →
    j < xs.length ∧ ∃ i ∈ x, ∃ l ∈ i.targets, place? xs.flatten l = some (startOf xs j)
  /-- Control goes on behind a chunk iff it goes on behind its last instruction. -/
  falls : ∀ {k : Nat} {x : List Insn}, xs[k]? = some x → (o.falls k ↔ RunsPast x)
  /-- A handler is the start of a chunk. -/
  guard : ∀ g ∈ guards, ∃ j, o.catches j ∧ place? xs.flatten g.handler = some (startOf xs j)
  /-- The handlers of the outline are in the exception table. -/
  catches : ∀ {j : Nat}, o.catches j →
    j < xs.length ∧ ∃ g ∈ guards, place? xs.flatten g.handler = some (startOf xs j)

/-- Every chunk that is entered is so with one depth, its code has what it takes from the operand
stack, and control does not go on behind the last chunk. -/
structure Steady (o : Outline) (xs : List (List Insn)) : Prop where
  /-- The operand stack has what the code of a chunk takes from it. -/
  runs : ∀ {k d : Nat} {x : List Insn}, Enters o xs k d → xs[k]? = some x →
    ∃ e, depthAfter d x = some e
  /-- There is a chunk wherever control goes on. -/
  stays : ∀ {k d : Nat}, Enters o xs k d → o.falls k → k + 1 < xs.length
  /-- A chunk is entered with one depth. -/
  unique : ∀ {k d e : Nat}, Enters o xs k d → Enters o xs k e → d = e

section Places

variable {xs : List (List Insn)} {x : List Insn} {k i : Nat}

/-- The instructions of a chunk stand behind its start. -/
theorem getElem?_flatten (hx : xs[k]? = some x) (hi : i < x.length) :
    xs.flatten[startOf xs k + i]? = some x[i] := by
  obtain ⟨hk, rfl⟩ := List.getElem?_eq_some_iff.1 hx
  have hsplit : xs.flatten = (xs.take k).flatten ++ (xs[k] ++ (xs.drop (k + 1)).flatten) := by
    conv_lhs => rw [← List.take_append_drop k xs, List.drop_eq_getElem_cons hk]
    rw [List.flatten_append, List.flatten_cons]
  rw [hsplit, startOf, List.getElem?_append_right (Nat.le_add_right _ _), Nat.add_sub_cancel_left,
    List.getElem?_append_left hi, List.getElem?_eq_getElem hi]

/-- A chunk ends in the code. -/
theorem startOf_add_length_le (hx : xs[k]? = some x) :
    startOf xs k + x.length ≤ xs.flatten.length := by
  obtain ⟨rest, hrest⟩ : xs.take (k + 1) <+: xs := List.take_prefix _ _
  rw [← startOf_succ hx, startOf]
  conv_rhs => rw [← hrest, List.flatten_append, List.length_append]
  exact Nat.le_add_right _ _

/-- Behind the last chunk the code ends. -/
theorem startOf_of_length_le (hk : xs.length ≤ k) : startOf xs k = xs.flatten.length := by
  rw [startOf, List.take_of_length_le hk]

end Places

/-- Control comes to an instruction of a chunk that it has entered. -/
def Located (o : Outline) (xs : List (List Insn)) (n d : Nat) : Prop :=
  ∃ k x i e, xs[k]? = some x ∧ i < x.length ∧ n = startOf xs k + i ∧ Enters o xs k e ∧
    depthAfter e (x.take i) = some d

/-- Control comes to an instruction of a chunk that it has entered, or behind the last one. -/
def Arrives (o : Outline) (xs : List (List Insn)) (n d : Nat) : Prop :=
  ∃ k x i e, xs[k]? = some x ∧ i ≤ x.length ∧ n = startOf xs k + i ∧ Enters o xs k e ∧
    depthAfter e (x.take i) = some d ∧ (i = x.length → RunsPast x)

namespace Chunked

variable {o : Outline} {xs : List (List Insn)} {guards : List Guard} {k d e n : Nat}
  {x : List Insn}

/-- Control passes an instruction with another one behind it in its chunk. -/
theorem passes_getElem (hc : Chunked o xs guards) (hx : xs[k]? = some x) {i : Nat}
    (hi : i + 1 < x.length) : Passes x[i] := by
  refine hc.passes x (List.mem_of_getElem? hx) _ ?_
  rw [List.dropLast_eq_take, List.mem_take_iff_getElem]
  exact ⟨i, by omega, rfl⟩

/-- Only the last instruction of a chunk jumps. -/
theorem exists_front (hc : Chunked o xs guards) (hx : xs[k]? = some x) {i : Insn} (hi : i ∈ x)
    {l : Label} (hl : l ∈ i.targets) : ∃ front, x = front ++ [i] := by
  rcases List.eq_nil_or_concat x with rfl | ⟨front, last, rfl⟩
  · cases hi
  · rw [List.concat_eq_append] at hx hi ⊢
    rcases List.mem_append.1 hi with hi | hi
    · rw [(hc.passes _ (List.mem_of_getElem? hx) i (by simpa using hi)).1] at hl
      cases hl
    · exact ⟨front, by rw [List.mem_singleton.1 hi]⟩

/-- Chunks are only entered where there are some. -/
theorem lt_of_enters (hc : Chunked o xs guards) (h : Enters o xs k d) : k < xs.length := by
  cases h with
  | first hne =>
    rw [List.length_pos_iff]
    rintro rfl
    exact hne rfl
  | handler hcatch => exact (hc.catches hcatch).1
  | jump _ hx _ hjump => exact (hc.jump hx hjump).1
  | next _ _ _ _ hlt => exact hlt

/-- An empty chunk is run past. -/
theorem enters_of_nil (hc : Chunked o xs guards) (h : Enters o xs k d) (hx : xs[k]? = some x)
    (hnil : x = []) (hnext : k + 1 < xs.length) : Enters o xs (k + 1) d := by
  refine .next h hx (by rw [hnil]; rfl) ((hc.falls hx).2 ?_) hnext
  simp [RunsPast, hnil]

/-- Control that enters a chunk comes to the first instruction from there on. -/
theorem located_of_enters (hc : Chunked o xs guards) (h : Enters o xs k d)
    (hlt : startOf xs k < xs.flatten.length) : Located o xs (startOf xs k) d := by
  -- By induction on the number of chunks that are left.
  obtain ⟨n, hn⟩ : ∃ n, xs.length - k = n := ⟨_, rfl⟩
  induction n generalizing k with
  | zero =>
    have := hc.lt_of_enters h
    omega
  | succ n ih =>
    have hx := List.getElem?_eq_getElem (hc.lt_of_enters h)
    by_cases hnil : xs[k] = []
    · -- An empty chunk is run past at once.
      have hstart : startOf xs (k + 1) = startOf xs k := by rw [startOf_succ hx, hnil]; rfl
      have hnext : k + 1 < xs.length := by
        by_contra hge
        rw [← hstart, startOf_of_length_le (not_lt.1 hge)] at hlt
        exact lt_irrefl _ hlt
      rw [← hstart]
      exact ih (hc.enters_of_nil h hx hnil hnext) (hstart ▸ hlt) (by omega)
    · exact ⟨k, xs[k], 0, d, hx, List.length_pos_iff.2 hnil, rfl, h, rfl⟩

/-- Wherever control is in the code, it has entered the chunk there. -/
theorem located_of_arrives (hc : Chunked o xs guards) (h : Arrives o xs n d)
    (hlt : n < xs.flatten.length) : Located o xs n d := by
  obtain ⟨k, x, i, e, hx, hi, rfl, henters, hd, hpast⟩ := h
  rcases hi.lt_or_eq with hi | rfl
  · exact ⟨k, x, i, e, hx, hi, rfl, henters, hd⟩
  · -- Behind a chunk control enters the next one, as there is code left.
    rw [List.take_length] at hd
    rw [← startOf_succ hx] at hlt ⊢
    have hnext : k + 1 < xs.length := by
      by_contra hge
      rw [startOf_of_length_le (not_lt.1 hge)] at hlt
      exact lt_irrefl _ hlt
    exact hc.located_of_enters (.next henters hx hd ((hc.falls hx).2 (hpast rfl)) hnext) hlt

/-- Control that has entered a chunk is in front of it. -/
theorem arrives_of_enters (hc : Chunked o xs guards) (h : Enters o xs k d) :
    Arrives o xs (startOf xs k) d := by
  refine ⟨k, _, 0, d, List.getElem?_eq_getElem (hc.lt_of_enters h), Nat.zero_le _, rfl, h, rfl,
    fun hnil => ?_⟩
  rw [List.eq_nil_of_length_eq_zero hnil.symm]
  exact nofun

/-- Wherever control comes to, it does by way of the chunks. -/
theorem arrives_of_reaches (hc : Chunked o xs guards) {s : Point}
    (h : Reaches xs.flatten guards s) : Arrives o xs s.1 s.2 := by
  induction h with
  | entry hentry =>
    cases hentry with
    | first hne => exact hc.arrives_of_enters (k := 0) (.first hne)
    | handler hg hplace =>
      obtain ⟨j, hj, hplace'⟩ := hc.guard _ hg
      cases hplace.symm.trans hplace'
      exact hc.arrives_of_enters (.handler hj)
  | step _ hstep ih =>
    cases hstep with
    | jump hinsn heffect hpops hl hplace =>
      obtain ⟨k, x, i, e, hx, hi, rfl, henters, hd⟩ :=
        hc.located_of_arrives ih (List.getElem?_eq_some_iff.1 hinsn).1
      cases (getElem?_flatten hx hi).symm.trans hinsn
      obtain ⟨j, hj, hplace'⟩ := hc.target hx (List.getElem_mem hi) hl
      cases hplace.symm.trans hplace'
      -- An instruction that jumps is the last one of its chunk.
      have hlast : i + 1 = x.length := by
        by_contra hne
        rw [(hc.passes_getElem hx (by omega)).1] at hl
        cases hl
      have hbehind := depthAfter_take_succ hi hd heffect hpops
      rw [hlast, List.take_length] at hbehind
      exact hc.arrives_of_enters (.jump henters hx hbehind hj)
    | next hinsn heffect hpops hflow =>
      obtain ⟨k, x, i, e, hx, hi, rfl, henters, hd⟩ :=
        hc.located_of_arrives ih (List.getElem?_eq_some_iff.1 hinsn).1
      cases (getElem?_flatten hx hi).symm.trans hinsn
      refine ⟨k, x, i + 1, e, hx, hi, rfl, henters, depthAfter_take_succ hi hd heffect hpops,
        fun hlast y hy => ?_⟩
      rw [List.getLast?_eq_getElem?, ← hlast, Nat.add_sub_cancel, List.getElem?_eq_getElem hi] at hy
      cases hy
      exact hflow

/-- Wherever control comes to in the code, it has entered the chunk there. -/
theorem located_of_reaches (hc : Chunked o xs guards) (h : Reaches xs.flatten guards (n, d))
    (hlt : n < xs.flatten.length) : Located o xs n d :=
  hc.located_of_arrives (hc.arrives_of_reaches h) hlt

/-- Places in one chunk are told apart by what is in front of them. -/
theorem located_inj {j i i' : Nat} {y : List Insn} (hx : xs[k]? = some x) (hi : i < x.length)
    (hy : xs[j]? = some y) (hi' : i' < y.length) (h : startOf xs k + i = startOf xs j + i') :
    k = j ∧ i = i' := by
  -- The places of one chunk are in front of those of the chunks behind it.
  have hkj : k = j := by
    rcases Nat.lt_trichotomy k j with hlt | heq | hlt
    · have hle : startOf xs (k + 1) ≤ startOf xs j := startOf_mono hlt
      rw [startOf_succ hx] at hle
      omega
    · exact heq
    · have hle : startOf xs (j + 1) ≤ startOf xs k := startOf_mono hlt
      rw [startOf_succ hy] at hle
      omega
  subst hkj
  exact ⟨rfl, by omega⟩

end Chunked

namespace Steady

variable {o : Outline} {xs : List (List Insn)} {guards : List Guard} {k d e n : Nat}
  {x : List Insn}

/-- There is an instruction wherever a chunk is entered. -/
theorem startOf_lt (hs : Steady o xs) (hc : Chunked o xs guards) (h : Enters o xs k d) :
    startOf xs k < xs.flatten.length := by
  obtain ⟨n, hn⟩ : ∃ n, xs.length - k = n := ⟨_, rfl⟩
  induction n generalizing k with
  | zero =>
    have := hc.lt_of_enters h
    omega
  | succ n ih =>
    have hx := List.getElem?_eq_getElem (hc.lt_of_enters h)
    by_cases hnil : xs[k] = []
    · have hstart : startOf xs (k + 1) = startOf xs k := by rw [startOf_succ hx, hnil]; rfl
      have hnext := hs.stays h ((hc.falls hx).2 (by simp [RunsPast, hnil]))
      exact hstart ▸ ih (hc.enters_of_nil h hx hnil hnext) (by omega)
    · have := startOf_add_length_le hx
      have := List.length_pos_iff.2 hnil
      omega

/-- Control does not come behind the last instruction. -/
theorem lt_of_reaches (hs : Steady o xs) (hc : Chunked o xs guards)
    (h : Reaches xs.flatten guards (n, d)) : n < xs.flatten.length := by
  obtain ⟨k, x, i, e, hx, hi, rfl, henters, hd, hpast⟩ := hc.arrives_of_reaches h
  rcases hi.lt_or_eq with hi | rfl
  · have := startOf_add_length_le hx
    omega
  · rw [List.take_length] at hd
    rw [← startOf_succ hx]
    have hfalls := (hc.falls hx).2 (hpast rfl)
    exact hs.startOf_lt hc (.next henters hx hd hfalls (hs.stays henters hfalls))

/-- Wherever control comes to, the instruction there has what it takes from the operand stack. -/
theorem exists_effect (hs : Steady o xs) (hc : Chunked o xs guards)
    (h : Reaches xs.flatten guards (n, d)) {insn : Insn} (hinsn : xs.flatten[n]? = some insn) :
    ∃ pops pushes, effect insn = .ok (pops, pushes) ∧ pops ≤ d := by
  obtain ⟨k, x, i, e, hx, hi, rfl, henters, hd⟩ :=
    hc.located_of_reaches h (hs.lt_of_reaches hc h)
  cases (getElem?_flatten hx hi).symm.trans hinsn
  obtain ⟨e', he'⟩ := hs.runs henters hx
  rw [← List.take_append_drop i x, List.drop_eq_getElem_cons hi, depthAfter_append, hd,
    Option.bind_some, ← List.singleton_append, depthAfter_append] at he'
  obtain ⟨_, he', -⟩ := Option.bind_eq_some_iff.1 he'
  obtain ⟨pops, pushes, heffect, hpops, -⟩ := depthAfter_singleton_iff.1 he'
  exact ⟨pops, pushes, heffect, hpops⟩

/-- Steady code has no fault on a path. -/
theorem no_fault (hs : Steady o xs) (hc : Chunked o xs guards) (err : CodeError) :
    ¬Fault xs.flatten guards err := by
  intro hfault
  -- Control stays in the code, at an instruction of a chunk that it has entered.
  have hlocated : ∀ {n d}, Reaches xs.flatten guards (n, d) → Located o xs n d :=
    fun h => hc.located_of_reaches h (hs.lt_of_reaches hc h)
  cases hfault with
  | underflow hr hinsn heffect hlt =>
    obtain ⟨_, _, heffect', hpops⟩ := hs.exists_effect hc hr hinsn
    cases heffect.symm.trans heffect'
    omega
  | inconsistent hr hr' hne =>
    obtain ⟨k, x, i, e, hx, hi, heq, henters, hd⟩ := hlocated hr
    obtain ⟨k', x', i', e', hx', hi', heq', henters', hd'⟩ := hlocated hr'
    obtain ⟨rfl, rfl⟩ := Chunked.located_inj hx hi hx' hi' (heq.symm.trans heq')
    cases hx.symm.trans hx'
    cases hs.unique henters henters'
    exact hne (Option.some.inj (hd.symm.trans hd'))
  | unbound hr hinsn hl hplace =>
    obtain ⟨k, x, i, e, hx, hi, rfl, -, -⟩ := hlocated hr
    cases (getElem?_flatten hx hi).symm.trans hinsn
    obtain ⟨j, -, hplace'⟩ := hc.target hx (List.getElem_mem hi) hl
    cases hplace.symm.trans hplace'
  | fallOffEnd hr hinsn =>
    rw [List.getElem?_eq_getElem (hs.lt_of_reaches hc hr)] at hinsn
    cases hinsn
  | noEffect hr hinsn heffect =>
    obtain ⟨_, _, heffect', -⟩ := hs.exists_effect hc hr hinsn
    cases heffect.symm.trans heffect'

end Steady

end BytecodeLowering.Lowering
