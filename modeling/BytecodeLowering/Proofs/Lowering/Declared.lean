import BytecodeLowering.Proofs.Lowering.Allocation
import BytecodeLowering.Proofs.Lowering.Arguments

/-!
# Slots by declaration

When a local gets the slot that its declaration gives it, when it gets the next free one instead,
and when it gets none although there is a free one.

* `Slots.DeclaredAt`, `Slots.Taken`: the slot of a local by its declaration, and whether another
  local is in its way.
* `Slots.Keyed`: every local is bound once.
* `Slots.declaredSlot?_eq_some_iff`: the slot by declaration is tried iff it is not too far behind
  and not taken. Whether the local ends within the slots of a method is not asked.
* `Slots.resolveDeclared_eq_resolve`, `Slots.exists_resolveDeclared`,
  `Slots.resolveDeclared_eq_error`: what comes of it.
* `Slots.resolveDeclared_of_performAll`: all of this after any operations on the slots of a method.
* `Slots.crowded_refused`: two locals that are refused although there is room for both.
-/

namespace BytecodeLowering.Lowering.Slots

open Ir

variable {m : Method} {body : Body} {s s' start : Slots} {l l' : Local} {b : Binding} {n n' : Nat}
  {ops : List Operation}

/-- The slot of a local by its declaration. -/
def DeclaredAt (s : Slots) (l : Local) (n : Nat) : Prop :=
  l.role = .ordinary ∧ ∃ i, s.declaration? l = some i ∧ s.first + i = n

/-- Another local is in the way of a local from the given slot on. -/
def Taken (s : Slots) (l : Local) (n : Nat) : Prop :=
  ∃ l' n', s.binding? l' = some (.slot n') ∧ ¬Disjoint (span l n) (span l' n')

/-- A local has no more than one slot by its declaration. -/
theorem DeclaredAt.unique (h : s.DeclaredAt l n) (h' : s.DeclaredAt l n') : n = n' := by
  obtain ⟨-, i, hi, rfl⟩ := h
  obtain ⟨-, j, hj, rfl⟩ := h'
  rw [Option.some.inj (hi.symm.trans hj)]

/-- Two locals are apart iff one of them ends where the other one starts, or before. -/
theorem disjoint_span_iff :
    Disjoint (span l n) (span l' n') ↔ n + l.slots ≤ n' ∨ n' + l'.slots ≤ n := by
  refine ⟨fun h => ?_, disjoint_span⟩
  rw [span, span, Set.Ico_disjoint_Ico] at h
  simp only [Local.slots]
  omega

section Keyed

/-- Every local is bound once: a binding that was made is the one that is found. -/
def Keyed (s : Slots) : Prop :=
  ∀ l b, (l, b) ∈ s.bindings → s.binding? l = some b

/-- Binding a local replaces the binding that it had. -/
theorem Keyed.bind (hs : Keyed s) (h : s.bind l b = .ok s') : Keyed s' := by
  intro l' b' hmem
  rw [binding?_bind h]
  obtain ⟨-, rfl⟩ := bind_ok_iff.1 h
  rcases List.mem_cons.1 hmem with heq | hmem
  · cases heq
    rw [if_pos rfl]
  · obtain ⟨hmem, hne⟩ := List.mem_filter.1 hmem
    rw [if_neg (by simpa using hne)]
    exact hs l' b' hmem

/-- The locals of a method are bound once at its start. -/
theorem keyed_of_ofMethod (h : ofMethod m body = .ok start) : Keyed start := by
  obtain ⟨_, -, h⟩ := bind_eq_ok_iff.1 h
  refine foldlM_induct h (by simp [Keyed]) fun x _ s s' hs hx => ?_
  rcases seed_ok hx with rfl | ⟨l, source, n, -, -, -, hbind⟩
  · exact hs
  · exact hs.bind hbind

/-- They still are after any operations. -/
theorem keyed_performAll (hs : Keyed s) : Keyed (performAll ops s) :=
  performAll_induct hs fun _ _ _ _ _ _ _ hbind hs => hs.bind hbind

/-- A slot is free iff no local is in the way. -/
theorem isFree_iff (hs : Keyed s) : s.isFree n l.slots = true ↔ ¬s.Taken l n := by
  rw [isFree, List.all_eq_true, Taken]
  constructor
  · rintro h ⟨l', n', hl', hmeet⟩
    have hfree := h (l', .slot n') (mem_of_lookup_eq_some hl')
    exact hmeet (disjoint_span_iff.2 (by simpa using hfree))
  · rintro h ⟨l', _ | _⟩ hmem
    · have hdisjoint := not_not.1 fun hmeet => h ⟨l', _, hs _ _ hmem, hmeet⟩
      simpa using disjoint_span_iff.1 hdisjoint
    · rfl

/-- The slot of a local by its declaration is tried iff it is not taken and at most the slot behind
the last one. -/
theorem declaredSlot?_eq_some_iff (hs : Keyed s) :
    s.declaredSlot? l = some n ↔ s.DeclaredAt l n ∧ n ≤ slotLimit ∧ ¬s.Taken l n := by
  rw [← isFree_iff hs, declaredSlot?, DeclaredAt]
  -- Only variables of the program have slots by their declaration.
  by_cases hrole : l.role = .ordinary
  · cases hi : s.declaration? l with
    | none => simp [hrole]
    | some i =>
      simp only [hrole, ne_eq, not_true_eq_false, if_false, Option.bind_eq_bind, Option.bind_some,
        Option.some.injEq, true_and, exists_eq_left']
      constructor
      · intro h
        split at h
        · rename_i hfree
          cases h
          exact ⟨rfl, hfree⟩
        · cases h
      · rintro ⟨rfl, hfree⟩
        rw [if_pos hfree]
  · simp [hrole]

end Keyed

section Fallback

/-- A local that has a place, or no slot by its declaration that can be tried, is resolved like any
other local. -/
theorem resolveDeclared_eq_resolve (hs : Keyed s)
    (h : s.binding? l ≠ none ∨ ∀ n, s.DeclaredAt l n → slotLimit < n ∨ s.Taken l n) :
    s.resolveDeclared l = s.resolve l := by
  unfold resolveDeclared
  split
  · rename_i n hnone hslot
    obtain ⟨hdeclared, hle, hfree⟩ := (declaredSlot?_eq_some_iff hs).1 hslot
    rcases h with hplace | h
    · exact absurd hnone hplace
    · rcases h n hdeclared with hlt | htaken
      · omega
      · exact absurd htaken hfree
  · rfl

/-- A local without a place is bound to the slot by its declaration, if that is tried. -/
theorem resolveDeclared_eq_bind (hnone : s.binding? l = none) (hslot : s.declaredSlot? l = some n) :
    s.resolveDeclared l = (s.bind l (.slot n)).map fun s' => (.slot n, s') := by
  rw [resolveDeclared, hnone, hslot]

/-- A local gets the slot by its declaration if it ends within the slots of a method there and is in
nobody's way. -/
theorem exists_resolveDeclared (hs : Keyed s) (hnone : s.binding? l = none)
    (hdeclared : s.DeclaredAt l n) (hfits : n + l.slots ≤ slotLimit) (hfree : ¬s.Taken l n) :
    ∃ s', s.resolveDeclared l = .ok (.slot n, s') := by
  have hslot : s.declaredSlot? l = some n :=
    (declaredSlot?_eq_some_iff hs).2 ⟨hdeclared, by omega, hfree⟩
  rw [resolveDeclared_eq_bind hnone hslot]
  exact ⟨_, map_eq_ok_iff.2 ⟨_, bind_ok_iff.2 ⟨hfits, rfl⟩, rfl⟩⟩

/-- Behind the slots that were taken nobody is in the way. -/
theorem not_taken_of_next_le (hs : Bounded s) (h : s.next ≤ n) : ¬s.Taken l n := by
  rintro ⟨l', n', hl', hmeet⟩
  have hle := hs.slot_le l' n' hl'
  exact hmeet (disjoint_span_iff.2 (.inr (by omega)))

/-- A variable of the program that gets a place gets it behind the slots that were taken. -/
theorem next_add_le_of_resolve {r : Binding × Slots} (hrole : l.role = .ordinary)
    (hnone : s.binding? l = none) (h : s.resolve l = .ok r) : s.next + l.slots ≤ slotLimit := by
  have hfresh : s.fresh l = .slot s.next := by rw [fresh, hrole]
  rcases resolve_ok_iff.1 h with ⟨hsome, -⟩ | ⟨-, hb, hbind⟩
  · rw [hnone] at hsome
    cases hsome
  · rw [← hb, hfresh] at hbind
    exact (bind_ok_iff.1 hbind).1

/-- A local that would end behind the slots of a method by its declaration gets no place at all if
its slot is tried, even where there is a place behind the slots that were taken. -/
theorem resolveDeclared_eq_error {r : Binding × Slots} (hs : Keyed s) (hbounded : Bounded s)
    (hnone : s.binding? l = none) (hdeclared : s.DeclaredAt l n) (hle : n ≤ slotLimit)
    (hlt : slotLimit < n + l.slots) (h : s.resolve l = .ok r) :
    s.resolveDeclared l = .error (.slots (.exhausted l.name n l.slots)) := by
  have hroom := next_add_le_of_resolve hdeclared.1 hnone h
  have hfree : ¬s.Taken l n := not_taken_of_next_le hbounded (by omega)
  rw [resolveDeclared_eq_bind hnone ((declaredSlot?_eq_some_iff hs).2 ⟨hdeclared, hle, hfree⟩)]
  simp [Slots.bind, slotBehind, Nat.not_le.2 hlt, Bind.bind, Except.bind, Except.map]

end Fallback

/-- The place of a local by its declaration, after any operations on the slots of a method. A local
that has a place, that has no slot by its declaration, or whose slot is too far behind or taken, is
resolved like any other. A free slot in which the local ends within those of a method is used. So a
local that can be resolved has a place by its declaration, too, with one exception: the slot behind
the last one, or the last one for a local that takes two, is tried although the local does not end
within the slots of a method there, and nothing leads back to the next free slot then. -/
theorem resolveDeclared_of_performAll (hstart : ofMethod m body = .ok start)
    (hs : performAll ops start = s) (l : Local) :
    (s.binding? l ≠ none ∨ (∀ n, s.DeclaredAt l n → 65535 < n ∨ s.Taken l n) →
      s.resolveDeclared l = s.resolve l) ∧
    (∀ n, s.binding? l = none → s.DeclaredAt l n → n + l.slots ≤ 65535 → ¬s.Taken l n →
      ∃ s', s.resolveDeclared l = .ok (.slot n, s')) ∧
    ∀ r, s.resolve l = .ok r →
      ((∃ r', s.resolveDeclared l = .ok r') ↔
        ¬(s.binding? l = none ∧ ∃ n, s.DeclaredAt l n ∧ n ≤ 65535 ∧ 65535 < n + l.slots)) := by
  have hkeyed : Keyed s := hs ▸ keyed_performAll (keyed_of_ofMethod hstart)
  have hbounded : Bounded s := hs ▸ bounded_performAll (framed_of_ofMethod hstart).toBounded
  refine ⟨resolveDeclared_eq_resolve hkeyed, fun n => exists_resolveDeclared hkeyed, ?_⟩
  intro r hr
  constructor
  · -- A slot that is tried without room for the local is an error, even where the next free slot
    -- would do.
    rintro ⟨r', hr'⟩ ⟨hnone, n, hdeclared, hle, hlt⟩
    cases (resolveDeclared_eq_error hkeyed hbounded hnone hdeclared hle hlt hr).symm.trans hr'
  · intro hends
    -- Either the slot by declaration is used, or nothing is tried.
    by_cases htried : s.binding? l = none ∧ ∃ n, s.DeclaredAt l n ∧ n ≤ slotLimit ∧ ¬s.Taken l n
    · obtain ⟨hnone, n, hdeclared, hle, hfree⟩ := htried
      have hfits : n + l.slots ≤ slotLimit :=
        Nat.not_lt.1 fun hlt => hends ⟨hnone, n, hdeclared, hle, hlt⟩
      obtain ⟨s', hs'⟩ := exists_resolveDeclared hkeyed hnone hdeclared hfits hfree
      exact ⟨_, hs'⟩
    · refine ⟨r, (resolveDeclared_eq_resolve hkeyed ?_).trans hr⟩
      by_cases hnone : s.binding? l = none
      · refine .inr fun n hdeclared => or_iff_not_imp_left.2 fun hlt => ?_
        exact not_not.1 fun hfree => htried ⟨hnone, n, hdeclared, Nat.not_lt.1 hlt, hfree⟩
      · exact .inl hnone

section Crowded

/-- A variable of `crowded` that takes one slot. -/
def crowdedNarrow : Local := ⟨"x", .prim .int, .ordinary⟩

/-- A variable of `crowded` that takes two slots. -/
def crowdedWide : Local := ⟨"w", .prim .long, .ordinary⟩

/-- The variable of `crowded` that is assigned last. -/
def crowdedLast : Local := ⟨"a", .prim .int, .ordinary⟩

/-- The body of `crowded`. -/
def crowdedBody : Body where
  locals := [crowdedNarrow, crowdedWide, ⟨"b", .prim .int, .ordinary⟩, crowdedLast]
  stmts := [⟨⟨0⟩, none, .assign (.var crowdedNarrow) (.operand (.const (.int 1)))⟩,
    ⟨⟨1⟩, none, .assign (.var crowdedWide) (.operand (.const (.long 1)))⟩,
    ⟨⟨2⟩, none, .assign (.var ⟨"b", .prim .int, .ordinary⟩) (.operand (.const (.int 1)))⟩,
    ⟨⟨3⟩, none, .assign (.var crowdedLast) (.operand (.const (.int 1)))⟩,
    ⟨⟨4⟩, none, .returnVoid⟩]
  flow := ⟨[⟨⟨0⟩, [⟨0⟩, ⟨1⟩, ⟨2⟩, ⟨3⟩, ⟨4⟩], [], []⟩]⟩

/-- A method whose parameters leave three slots for its variables. -/
def crowded : Method :=
  ⟨"crowded", [.static], List.replicate 32766 (.prim .long), .void, [], some crowdedBody, none⟩

/-- The parameters of `crowded` reach up to its last three slots. -/
theorem argumentEnd_crowded : argumentEnd crowded = 65532 :=
  (argumentEnd_of_replicate rfl).trans (by decide)

/-- The slots of `crowded` at its start, but for those of its parameters. -/
def crowdedSlots (params : List Nat) : Slots where
  next := 65532
  params := params
  first := 65532
  declared := crowdedBody.defs.reverse

/-- All parameters of `crowded` have slots, and none of its variables has one. -/
theorem ofMethod_crowded : ∃ params, ofMethod crowded crowdedBody = .ok (crowdedSlots params) := by
  have hend : argumentEnd crowded ≤ slotLimit := by
    rw [argumentEnd_crowded]
    decide
  have hbody : ∀ x ∈ crowdedBody.stmts, ∀ l source, x.kind ≠ .identity l source := by
    simp [crowdedBody]
  have hstart := ofMethod_eq_unbound hend hbody
  rw [argumentEnd_crowded] at hstart
  exact ⟨_, hstart⟩

/-- Two variables of `crowded` are refused by their declarations, although there is room for both:
one is to start behind the last slot, and one of two slots in the last one. -/
theorem crowded_refused : ∃ start, ofMethod crowded crowdedBody = .ok start ∧
    (∃ s, start.resolve crowdedNarrow = .ok (.slot 65532, s) ∧
      ∃ s', s.resolve crowdedWide = .ok (.slot 65533, s')) ∧
    start.resolveDeclared crowdedNarrow = .error (.slots (.exhausted "x" 65535 1)) ∧
    start.resolveDeclared crowdedWide = .error (.slots (.exhausted "w" 65534 2)) := by
  obtain ⟨params, h⟩ := ofMethod_crowded
  exact ⟨_, h, ⟨_, rfl, _, rfl⟩, rfl, rfl⟩

/-- `resolveDeclared_of_performAll` at the last slots: behind a variable in the first one of them,
another one whose slot this is falls back to the next one, and a third one is refused. -/
theorem crowded_resolved : ∃ start s, ofMethod crowded crowdedBody = .ok start ∧
    performAll [.ask (.resolve crowdedNarrow)] start = s ∧
    s.DeclaredAt crowdedLast 65532 ∧ s.Taken crowdedLast 65532 ∧
    s.resolveDeclared crowdedLast = s.resolve crowdedLast ∧
    s.DeclaredAt crowdedWide 65534 ∧ (∃ s', s.resolve crowdedWide = .ok (.slot 65533, s')) ∧
    ¬∃ r, s.resolveDeclared crowdedWide = .ok r := by
  obtain ⟨params, hstart⟩ := ofMethod_crowded
  let s := performAll [.ask (.resolve crowdedNarrow)] (crowdedSlots params)
  obtain ⟨hlast, -, -⟩ := resolveDeclared_of_performAll hstart (rfl : _ = s) crowdedLast
  obtain ⟨-, -, hwide⟩ := resolveDeclared_of_performAll hstart (rfl : _ = s) crowdedWide
  have hdeclared : s.DeclaredAt crowdedLast 65532 := ⟨rfl, 0, rfl, rfl⟩
  have htaken : s.Taken crowdedLast 65532 :=
    ⟨crowdedNarrow, 65532, rfl, by rw [disjoint_span_iff]; decide⟩
  refine ⟨_, s, hstart, rfl, hdeclared, htaken, ?_, ⟨rfl, 2, rfl, rfl⟩, ⟨_, rfl⟩, ?_⟩
  · exact hlast (.inr fun n hn => .inr (hn.unique hdeclared ▸ htaken))
  · rw [hwide _ rfl]
    exact not_not.2 ⟨rfl, 65534, ⟨rfl, 2, rfl, rfl⟩, by decide, by decide⟩

end Crowded

end BytecodeLowering.Lowering.Slots
