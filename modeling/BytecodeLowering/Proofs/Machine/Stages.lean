import BytecodeLowering.Proofs.Machine.Paths
import Mathlib.Algebra.GroupWithZero.Nat
import Mathlib.Algebra.Order.BigOperators.Group.List
import Mathlib.Algebra.Order.Group.Nat
import Mathlib.Data.List.Nodup
import Mathlib.Data.List.Perm.Subperm

/-!
# Stages of a walk

Why the walk along an instruction list comes to an end, whatever the list is: what it does stage by
stage, and how often.

* `Walk.Act`, `Walk.Stage`, `Walk.Run`: what is done in a stage, one stage, and any number of them.
* `Walk.Stage.unique`, `Walk.Stage.meets_or_stops`: a walk goes on in one way only, and on the path
  at hand by a new instruction or not at all.
* `Walk.exists_run`, `Walk.Run.isPrefix`: it has a run to its end, of which every run is a part.
* `Walk.Counts`, `Walk.Run.counts`, `Walk.Run.met_eq`: no instruction is met twice, no more paths
  are taken up than there were at first or came from the instructions met, and each of them ends no
  more than once.
* `opening`, `maxSizes_eq_bind`: the measurement of code up to its walk, and behind it.
* `maxSizes_ends`: all of this for the walk of a measurement.
-/

namespace BytecodeLowering.Machine

namespace Walk

/-- What is done in a stage of a walk. -/
inductive Act where
  /-- A pending path is taken up. -/
  | resume (s : Point)
  /-- An instruction is met for the first time: its depth is noted, and what it does is looked up. -/
  | meet (i : Nat)
  /-- The path at hand comes to an instruction that was met before, or leaves the list. -/
  | stop (i : Nat)
  deriving DecidableEq, Repr

/-- The path that is taken up in a stage. -/
def Act.resumed? : Act → Option Point
  | resume s => some s
  | _ => none

/-- The instruction that is met for the first time in a stage. -/
def Act.met? : Act → Option Nat
  | meet i => some i
  | _ => none

/-- The paths that are taken up. -/
def resumed (acts : List Act) : List Point :=
  acts.filterMap Act.resumed?

/-- The instructions that are met for the first time. -/
def newlyMet (acts : List Act) : List Nat :=
  acts.filterMap Act.met?

/-- One stage of a walk: a path is taken up if there is none at hand, and followed by one
instruction otherwise. -/
inductive Stage (code : List Insn) (w : Walk) : Act → Except CodeError Walk → Prop
  | resume {s : Point} {rest : List Point} : w.here = none → w.pending = s :: rest →
      Stage code w (.resume s) (.ok { w with pending := rest, here := some s })
  | meet {i d : Nat} {x : Except CodeError Walk} : w.here = some (i, d) → i < code.length →
      w.depth? i = none → visit code w i d = x → Stage code w (.meet i) x
  | stop {i d : Nat} {x : Except CodeError Walk} : w.here = some (i, d) →
      code.length ≤ i ∨ w.depth? i ≠ none → visit code w i d = x → Stage code w (.stop i) x

/-- Any number of stages, of which the last one may fail. -/
inductive Run (code : List Insn) : Walk → List Act → Except CodeError Walk → Prop
  | refl {w : Walk} : Run code w [] (.ok w)
  | step {w w' : Walk} {a : Act} {acts : List Act} {x : Except CodeError Walk} :
      Stage code w a (.ok w') → Run code w' acts x → Run code w (a :: acts) x
  | fail {w : Walk} {a : Act} {e : CodeError} :
      Stage code w a (.error e) → Run code w [a] (.error e)

/-- A walk has failed, or there is nothing left to follow. -/
def Ended : Except CodeError Walk → Prop
  | .ok w => w.here = none ∧ w.pending = []
  | .error _ => True

/-- The number of paths that come from an instruction. -/
def forks (code : List Insn) (i : Nat) : Nat :=
  match code[i]? with
  | some insn => insn.targets.length
  | none => 0

variable {code : List Insn} {w w' : Walk} {a a' : Act} {acts acts' : List Act}
  {x x' : Except CodeError Walk} {i d : Nat}

section Stage

/-- A path at hand is followed. -/
theorem exists_stage_of_here (code : List Insn) (hhere : w.here = some (i, d)) :
    ∃ a, Stage code w a (visit code w i d) := by
  by_cases hmeet : i < code.length ∧ w.depth? i = none
  · exact ⟨_, .meet hhere hmeet.1 hmeet.2 rfl⟩
  · refine ⟨_, .stop hhere ?_ rfl⟩
    rw [← Nat.not_lt]
    exact not_and_or.1 hmeet

/-- A walk that has ended does not go on. -/
theorem Stage.not_ended (h : Stage code w a x) : ¬Ended (.ok w) := by
  rintro ⟨hnone, hnil⟩
  cases h with
  | resume _ hpending => cases hnil.symm.trans hpending
  | meet hhere => cases hnone.symm.trans hhere
  | stop hhere => cases hnone.symm.trans hhere

/-- A walk goes on in one way only. -/
theorem Stage.unique (h : Stage code w a x) (h' : Stage code w a' x') : a = a' ∧ x = x' := by
  -- The place at hand tells a new path from one that goes on, and its depth whether it ends there.
  cases h with
  | resume hhere hpending =>
    cases h' with
    | resume _ hpending' =>
      cases hpending.symm.trans hpending'
      exact ⟨rfl, rfl⟩
    | meet hhere' => cases hhere.symm.trans hhere'
    | stop hhere' => cases hhere.symm.trans hhere'
  | meet hhere hlt hnew hvisit =>
    cases h' with
    | resume hhere' => cases hhere.symm.trans hhere'
    | meet hhere' _ _ hvisit' =>
      cases hhere.symm.trans hhere'
      exact ⟨rfl, hvisit.symm.trans hvisit'⟩
    | stop hhere' hold =>
      cases hhere.symm.trans hhere'
      exact absurd hnew (hold.resolve_left (Nat.not_le.2 hlt))
  | stop hhere hold hvisit =>
    cases h' with
    | resume hhere' => cases hhere.symm.trans hhere'
    | meet hhere' hlt hnew =>
      cases hhere.symm.trans hhere'
      exact absurd hnew (hold.resolve_left (Nat.not_le.2 hlt))
    | stop hhere' _ hvisit' =>
      cases hhere.symm.trans hhere'
      exact ⟨rfl, hvisit.symm.trans hvisit'⟩

/-- An instruction that is met is noted, and its targets become pending. -/
theorem visit_of_new (hnew : w.depth? i = none) (h : visit code w i d = .ok w') :
    w'.met = (i, d) :: w.met ∧ w'.pending.length = w.pending.length + forks code i := by
  rcases visit_ok h with ⟨hmet, -⟩ | ⟨-, insn, pops, pushes, targets, hinsn, -, -, htargets, rfl⟩
  · cases hnew.symm.trans hmet
  · refine ⟨rfl, ?_⟩
    simp [advance, forks, hinsn, htargets.length_eq, Nat.add_comm]

/-- At an instruction met before the path at hand ends, and nothing else changes. -/
theorem visit_of_old (hold : code.length ≤ i ∨ w.depth? i ≠ none)
    (h : visit code w i d = .ok w') : w' = { w with here := none } := by
  rcases visit_ok h with ⟨-, rfl⟩ | ⟨hnew, insn, _, _, _, hinsn, -⟩
  · rfl
  · have hlt : i < code.length := (List.getElem?_eq_some_iff.1 hinsn).1
    exact absurd hnew (hold.resolve_left (Nat.not_le.2 hlt))

/-- A stage on the path at hand meets an instruction that was not met before and notes it, or ends
the path, or fails. -/
theorem Stage.meets_or_stops (h : Stage code w a x) (hhere : w.here ≠ none) :
    (∃ i, a = .meet i ∧ i ∉ w.met.map Prod.fst ∧
      ∀ w', x = .ok w' → w'.met.map Prod.fst = i :: w.met.map Prod.fst) ∨
    ∃ i, a = .stop i ∧ ∀ w', x = .ok w' → w'.met = w.met ∧ w'.here = none := by
  cases h with
  | resume hnone => exact absurd hnone hhere
  | @meet i d _ _ _ hnew hvisit =>
    -- A new place has no depth, so that none was noted for it.
    refine .inl ⟨i, rfl, fun hmem => ?_, ?_⟩
    · obtain ⟨s, hs, rfl⟩ := List.mem_map.1 hmem
      simpa using List.lookup_eq_none_iff.1 hnew s hs
    · rintro w' rfl
      rw [(visit_of_new hnew hvisit).1, List.map_cons]
  | @stop i d _ _ hold hvisit =>
    refine .inr ⟨i, rfl, ?_⟩
    rintro w' rfl
    obtain rfl := visit_of_old hold hvisit
    exact ⟨rfl, rfl⟩

end Stage

section Run

/-- A walk has a run to what it is followed to, which is an end. -/
theorem exists_run (code : List Insn) (w : Walk) :
    ∃ acts, Run code w acts (finish code w) ∧ Ended (finish code w) := by
  -- By induction along the walk: it fails, goes on from an instruction, ends, or takes up a path.
  fun_induction finish code w with
  | case1 w i d hhere e hvisit =>
    obtain ⟨a, h⟩ := exists_stage_of_here code hhere
    rw [hvisit] at h
    exact ⟨_, .fail h, trivial⟩
  | case2 w i d hhere w' hvisit ih =>
    obtain ⟨a, h⟩ := exists_stage_of_here code hhere
    obtain ⟨acts, hrun, hend⟩ := ih
    rw [hvisit] at h
    exact ⟨_, .step h hrun, hend⟩
  | case3 w hhere hpending => exact ⟨_, .refl, hhere, hpending⟩
  | case4 w hhere s rest hpending ih =>
    obtain ⟨acts, hrun, hend⟩ := ih
    exact ⟨_, .step (.resume hhere hpending) hrun, hend⟩

/-- Every run of a walk is a part of the run to its end. -/
theorem Run.isPrefix (h : Run code w acts x) (h' : Run code w acts' x') (hend : Ended x') :
    acts <+: acts' := by
  induction h generalizing acts' with
  | refl => exact List.nil_prefix
  | step hstage _ ih =>
    cases h' with
    | refl => exact absurd hend hstage.not_ended
    | step hstage' hrun' =>
      -- Both runs start with the one stage that there is.
      obtain ⟨rfl, ⟨⟩⟩ := hstage.unique hstage'
      exact (List.prefix_cons_inj _).2 (ih hrun')
    | fail hstage' => cases (hstage.unique hstage').2
  | fail hstage =>
    cases h' with
    | refl => exact absurd hend hstage.not_ended
    | step hstage' => cases (hstage.unique hstage').2
    | fail hstage' => exact (hstage.unique hstage').1 ▸ List.prefix_refl _

/-- How often the things are done that are done in a run. -/
structure Counts (code : List Insn) (w : Walk) (acts : List Act) : Prop where
  /-- The instructions that are met are in the list, and were not met before. -/
  fresh : ∀ i ∈ newlyMet acts, i < code.length ∧ w.depth? i = none
  /-- None is met twice. -/
  nodup : (newlyMet acts).Nodup
  /-- The paths that are taken up were pending, or come from the instructions that are met. -/
  resumed_le : (resumed acts).length ≤
    w.pending.length + ((newlyMet acts).map (forks code)).sum
  /-- Behind each path that is taken up, and behind that at hand, there is at most one stage in
  which no instruction is met. -/
  length_le : acts.length ≤
    2 * (resumed acts).length + (newlyMet acts).length + if w.here.isSome then 1 else 0

namespace Counts

variable {s : Point} {rest : List Point}

/-- Nothing is done. -/
theorem nil : Counts code w [] :=
  ⟨nofun, .nil, Nat.zero_le _, Nat.zero_le _⟩

/-- A path is taken up first. -/
theorem resume (h : Counts code { w with pending := rest, here := some s } acts)
    (hpending : w.pending = s :: rest) : Counts code w (.resume s :: acts) := by
  obtain ⟨hfresh, hnodup, hresumed, hlength⟩ := h
  have hpaths : (resumed (.resume s :: acts)).length = (resumed acts).length + 1 := rfl
  have hmet : newlyMet (.resume s :: acts) = newlyMet acts := rfl
  have hrest : w.pending.length = rest.length + 1 := by rw [hpending, List.length_cons]
  dsimp only at hresumed
  refine ⟨hfresh, hnodup, ?_, ?_⟩
  · rw [hpaths, hmet]
    omega
  · -- The stage in which the path ends is counted with the one in which it is taken up.
    rw [Option.isSome_some, if_pos rfl] at hlength
    rw [hpaths, hmet, List.length_cons]
    omega

/-- An instruction is met first. -/
theorem meet (h : Counts code w' acts) (hhere : w.here = some (i, d)) (hlt : i < code.length)
    (hnew : w.depth? i = none) (hnoted : w'.met = (i, d) :: w.met)
    (hpending : w'.pending.length ≤ w.pending.length + forks code i) :
    Counts code w (.meet i :: acts) := by
  obtain ⟨hfresh, hnodup, hresumed, hlength⟩ := h
  have hpaths : resumed (.meet i :: acts) = resumed acts := rfl
  have hmet : newlyMet (.meet i :: acts) = i :: newlyMet acts := rfl
  -- An instruction that was not met afterwards is another one, and was not met before.
  have hother : ∀ j, w'.depth? j = none → j ≠ i ∧ w.depth? j = none := by
    intro j hj
    rw [depth?, hnoted, List.lookup_cons] at hj
    split at hj
    · cases hj
    · rename_i hne
      exact ⟨by simpa using hne, hj⟩
  refine ⟨?_, ?_, ?_, ?_⟩
  · rw [hmet, List.forall_mem_cons]
    exact ⟨⟨hlt, hnew⟩, fun j hj => ⟨(hfresh j hj).1, (hother j (hfresh j hj).2).2⟩⟩
  · rw [hmet, List.nodup_cons]
    exact ⟨fun hi => (hother i (hfresh i hi).2).1 rfl, hnodup⟩
  · -- What the instruction forks is pending behind it.
    rw [hpaths, hmet, List.map_cons, List.sum_cons]
    omega
  · have hone : (if w'.here.isSome then 1 else 0) ≤ 1 := by split <;> omega
    rw [hpaths, hmet, hhere, Option.isSome_some, if_pos rfl, List.length_cons, List.length_cons]
    omega

/-- The path at hand ends first. -/
theorem stop (h : Counts code { w with here := none } acts) (hhere : w.here = some (i, d)) :
    Counts code w (.stop i :: acts) := by
  obtain ⟨hfresh, hnodup, hresumed, hlength⟩ := h
  have hpaths : resumed (.stop i :: acts) = resumed acts := rfl
  have hmet : newlyMet (.stop i :: acts) = newlyMet acts := rfl
  refine ⟨hfresh, hnodup, hresumed, ?_⟩
  rw [hpaths, hmet, hhere, Option.isSome_some, if_pos rfl, List.length_cons]
  exact Nat.succ_le_succ hlength

end Counts

/-- The counts of a run, from its end on. -/
theorem Run.counts (h : Run code w acts x) : Counts code w acts := by
  induction h with
  | refl => exact .nil
  | step hstage _ ih =>
    cases hstage with
    | resume _ hpending => exact ih.resume hpending
    | meet hhere hlt hnew hvisit =>
      obtain ⟨hnoted, hpending⟩ := visit_of_new hnew hvisit
      exact ih.meet hhere hlt hnew hnoted hpending.le
    | stop hhere hold hvisit =>
      obtain rfl := visit_of_old hold hvisit
      exact ih.stop hhere
  | @fail w a e hstage =>
    cases hstage with
    | @meet i d _ hhere hlt hnew =>
      -- The instruction is noted before anything about it fails.
      have hnil : Counts code { w with met := (i, d) :: w.met } [] := .nil
      exact hnil.meet hhere hlt hnew rfl (Nat.le_add_right _ _)
    | stop hhere => exact Counts.nil.stop hhere

/-- The instructions that were met are noted, the last one first. -/
theorem Run.met_eq (h : Run code w acts (.ok w')) :
    w'.met.map Prod.fst = (newlyMet acts).reverse ++ w.met.map Prod.fst := by
  generalize hx : (.ok w' : Except CodeError Walk) = x at h
  induction h with
  | refl =>
    cases hx
    rfl
  -- Only a stage that meets an instruction notes one.
  | @step w w₁ a acts x hstage _ ih =>
    rw [ih hx]
    cases hstage with
    | resume => rfl
    | @meet i d _ _ _ hnew hvisit =>
      have hmet : newlyMet (.meet i :: acts) = i :: newlyMet acts := rfl
      rw [hmet, (visit_of_new hnew hvisit).1]
      simp
    | stop _ hold hvisit =>
      obtain rfl := visit_of_old hold hvisit
      rfl
  | fail => cases hx

end Run

section Bounds

/-- Instructions without repeats are no more than there are in the list. -/
theorem length_le_of_nodup {is : List Nat} (hnodup : is.Nodup) (hlt : ∀ i ∈ is, i < code.length) :
    is.length ≤ code.length ∧
      (is.map (forks code)).sum ≤ (code.map fun insn => insn.targets.length).sum := by
  have hsub : is.Subperm (List.range code.length) :=
    hnodup.subperm fun i hi => List.mem_range.2 (hlt i hi)
  -- In the order of the list, these are the targets of all its instructions.
  have hall : (List.range code.length).map (forks code) =
      code.map fun insn => insn.targets.length := by
    refine List.ext_getElem (by simp) fun i hi hi' => ?_
    have hlt : i < code.length := by simpa using hi
    simp [forks, List.getElem?_eq_getElem hlt]
  refine ⟨by simpa using hsub.length_le, ?_⟩
  rw [← hall]
  obtain ⟨js, hperm, hsublist⟩ := hsub
  rw [← (hperm.map (forks code)).sum_eq]
  exact (hsublist.map (forks code)).sum_le_sum fun _ _ => Nat.zero_le _

end Bounds

end Walk

section Measurement

variable (code : List Insn) (guards : List Guard) (argSlots : Nat)

/-- What a measurement finds out before it walks: the number of local variables, and where the walk
starts. -/
def opening : Except CodeError (Nat × Walk) := do
  if let some l := firstRepeat? (code.filterMap Insn.bound?) then throw (.duplicate l)
  let locals ← localsOf argSlots code
  let handlers ← guards.mapM (handlerPlace code)
  return (locals, .start (entries code handlers).reverse)

/-- A measurement follows a walk to its end, and looks at the line numbers behind it. -/
def closing (locals : Nat) (x : Except CodeError Walk) : Except CodeError Sizes := do
  let w ← x
  checkLines code
  return ⟨w.peak, locals⟩

variable {code guards argSlots}

/-- The three parts of a measurement. -/
theorem maxSizes_eq_bind : maxSizes code guards argSlots =
    (opening code guards argSlots).bind fun x => closing code x.1 (x.2.finish code) := by
  unfold maxSizes opening closing
  cases firstRepeat? (code.filterMap Insn.bound?) with
  | some l => rfl
  | none =>
    cases localsOf argSlots code with
    | error e => rfl
    | ok locals => cases guards.mapM (handlerPlace code) <;> rfl

/-- The walk of a measurement has met nothing at first, and no more paths are pending than one for
the code and one for each entry of the exception table. -/
theorem opening_eq_ok {locals : Nat} {w : Walk}
    (h : opening code guards argSlots = .ok (locals, w)) :
    w.met = [] ∧ w.here = none ∧ w.pending.length ≤ 1 + guards.length := by
  unfold opening at h
  split at h
  · cases h
  · obtain ⟨_, -, h⟩ := bind_eq_ok_iff.1 h
    obtain ⟨handlers, hhandlers, h⟩ := bind_eq_ok_iff.1 h
    cases h
    refine ⟨rfl, rfl, ?_⟩
    have hlength := (mapM_eq_ok_iff.1 hhandlers).length_eq
    rw [Walk.start, List.length_reverse, entries, List.length_append, List.length_map, hlength]
    split <;> simp

end Measurement

open Walk in
/-- A measurement comes to an end, whatever it measures. It fails before it walks, or its walk has a
run to an end, of which every run of the walk is a part and whose length is bounded beforehand. In
every run no instruction is met twice; those that were met are those that are noted; a stage on the
path at hand meets an instruction that was not met before, and notes it, or ends the path; and no
more paths are taken up than one for the code, one for each entry of the exception table, and the
targets of the instructions that are met. -/
theorem maxSizes_ends (code : List Insn) (guards : List Guard) (argSlots : Nat) :
    (∃ e, opening code guards argSlots = .error e ∧ maxSizes code guards argSlots = .error e) ∨
    ∃ locals w acts x, opening code guards argSlots = .ok (locals, w) ∧
      Run code w acts x ∧ Ended x ∧ maxSizes code guards argSlots = closing code locals x ∧
      acts.length ≤
        code.length + 2 * (1 + guards.length + (code.map fun insn => insn.targets.length).sum) ∧
      ∀ as y, Run code w as y → as <+: acts ∧ (newlyMet as).Nodup ∧
        (resumed as).length ≤ 1 + guards.length + ((newlyMet as).map (forks code)).sum ∧
        ∀ w', y = .ok w' → w'.met.map Prod.fst = (newlyMet as).reverse ∧
          ∀ a z, w'.here ≠ none → Stage code w' a z →
            (∃ i, a = .meet i ∧ i ∉ newlyMet as ∧
              ∀ w'', z = .ok w'' → w''.met.map Prod.fst = i :: w'.met.map Prod.fst) ∨
            ∃ i, a = .stop i ∧ ∀ w'', z = .ok w'' → w''.met = w'.met ∧ w''.here = none := by
  cases hopening : opening code guards argSlots with
  | error e =>
    refine .inl ⟨e, rfl, ?_⟩
    rw [maxSizes_eq_bind, hopening]
    rfl
  | ok r =>
    obtain ⟨locals, w⟩ := r
    obtain ⟨hmet, hhere, hpending⟩ := opening_eq_ok hopening
    obtain ⟨acts, hrun, hend⟩ := exists_run code w
    refine .inr ⟨locals, w, acts, w.finish code, rfl, hrun, hend, ?_, ?_, fun as y hy => ?_⟩
    · rw [maxSizes_eq_bind, hopening]
      rfl
    · have hcounts := hrun.counts
      obtain ⟨hnew, hforks⟩ :=
        length_le_of_nodup hcounts.nodup fun i hi => (hcounts.fresh i hi).1
      have hresumed := hcounts.resumed_le
      have hlength : acts.length ≤ 2 * (resumed acts).length + (newlyMet acts).length := by
        simpa [hhere] using hcounts.length_le
      omega
    · have hcounts := hy.counts
      have hresumed := hcounts.resumed_le
      refine ⟨hy.isPrefix hrun hend, hcounts.nodup, by omega, ?_⟩
      rintro w' rfl
      have hnoted : w'.met.map Prod.fst = (newlyMet as).reverse := by
        simpa [hmet] using hy.met_eq
      refine ⟨hnoted, fun a z hhere' hstage => ?_⟩
      simpa only [hnoted, List.mem_reverse] using hstage.meets_or_stops hhere'

end BytecodeLowering.Machine
