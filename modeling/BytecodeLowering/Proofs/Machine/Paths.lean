import BytecodeLowering.Machine.Depth
import BytecodeLowering.Proofs.Result
import Mathlib.Order.Bounds.Basic

/-!
# Paths of an instruction list

What the walk along an instruction list finds out, told by the states that control can be in: a
place in the list, with the depth of the operand stack in front of it.

* `Step`, `Reaches`: one instruction carried out, and the states that control gets into from the
  start of the list and from the handlers.
* `Walk.Inv`: what every stage of a walk keeps: it holds only states that are reached, and the
  successors of the instructions met are met, pending, or next.
* `Walk.finish_inv`: a finished walk has met exactly the states that are reached.
* `Walk.fault_of_finish`: a failed walk has come upon a fault on a path.
* `Walk.follow`, `maxSizes_of_follow`: a walk of a given number of stages, by which the code of an
  example can be measured.
* `maxSizes_exact`: the sizes of a frame are those of the deepest stack and of the last variable.
-/

namespace BytecodeLowering.Machine

/-- A place in an instruction list with the depth of the operand stack in front of it. -/
abbrev Point := Nat × Nat

/-- One instruction carried out: control goes on at one of its targets, or behind it. -/
inductive Step (code : List Insn) : Point → Point → Prop
  | jump {i d pops pushes j : Nat} {insn : Insn} {l : Label} :
      code[i]? = some insn → effect insn = .ok (pops, pushes) → pops ≤ d →
      l ∈ insn.targets → place? code l = some j → Step code (i, d) (j, d - pops + pushes)
  | next {i d pops pushes : Nat} {insn : Insn} :
      code[i]? = some insn → effect insn = .ok (pops, pushes) → pops ≤ d →
      insn.endsFlow = false → Step code (i, d) (i + 1, d - pops + pushes)

/-- Where control starts: at the first instruction with an empty operand stack, and at the handlers
with the exception on it. -/
inductive Entry (code : List Insn) (guards : List Guard) : Point → Prop
  | first : code ≠ [] → Entry code guards (0, 0)
  | handler {g : Guard} {i : Nat} :
      g ∈ guards → place? code g.handler = some i → Entry code guards (i, 1)

/-- The states that control gets into. -/
inductive Reaches (code : List Insn) (guards : List Guard) : Point → Prop
  | entry {s : Point} : Entry code guards s → Reaches code guards s
  | step {s s' : Point} : Reaches code guards s → Step code s s' → Reaches code guards s'

/-- The instruction at a place can be carried out with the given depth. -/
def Applies (code : List Insn) (s : Point) : Prop :=
  ∃ insn pops pushes, code[s.1]? = some insn ∧ effect insn = .ok (pops, pushes) ∧ pops ≤ s.2

/-- The depths in front of and behind the instructions at the given states. -/
def depthsAt (code : List Insn) (P : Point → Prop) : Set Nat :=
  {n | ∃ i d, P (i, d) ∧ (n = d ∨ ∃ insn pops pushes,
    code[i]? = some insn ∧ effect insn = .ok (pops, pushes) ∧ n = d - pops + pushes)}

/-- What is wrong with the paths of an instruction list. -/
inductive Fault (code : List Insn) (guards : List Guard) : CodeError → Prop
  | underflow {i d pops pushes : Nat} {insn : Insn} :
      Reaches code guards (i, d) → code[i]? = some insn → effect insn = .ok (pops, pushes) →
      d < pops → Fault code guards (.underflow i insn.render d pops)
  | inconsistent {i d d' : Nat} :
      Reaches code guards (i, d) → Reaches code guards (i, d') → d ≠ d' →
      Fault code guards (.inconsistent i d d')
  | unbound {i d : Nat} {insn : Insn} {l : Label} :
      Reaches code guards (i, d) → code[i]? = some insn → l ∈ insn.targets →
      place? code l = none → Fault code guards (.unbound l)
  | fallOffEnd {i d : Nat} :
      Reaches code guards (i, d) → code[i]? = none → Fault code guards .fallOffEnd
  | noEffect {i d : Nat} {insn : Insn} {e : CodeError} :
      Reaches code guards (i, d) → code[i]? = some insn → effect insn = .error e →
      Fault code guards e

variable {code : List Insn} {guards : List Guard}

/-- A label resolves to its place. -/
theorem resolve_eq_ok_iff {l : Label} {i : Nat} :
    resolve code l = .ok i ↔ place? code l = some i := by
  unfold resolve
  split <;> simp_all

/-- A label fails to resolve iff it is bound nowhere. -/
theorem resolve_eq_error_iff {l : Label} {e : CodeError} :
    resolve code l = .error e ↔ place? code l = none ∧ e = .unbound l := by
  unfold resolve
  cases h : place? code l with
  | some i => simp
  | none => simp [eq_comm]

namespace Walk

/-- A walk knows of a state: it has met it, or goes on there later or next. -/
def Tracks (w : Walk) (s : Point) : Prop :=
  s ∈ w.met ∨ s ∈ w.pending ∨ w.here = some s

/-- The walk behind an instruction that was met for the first time. -/
def advance (w : Walk) (i d : Nat) (targets : List Nat) (flows : Bool) (after : Nat) : Walk where
  met := (i, d) :: w.met
  pending := (targets.map fun t => (t, after)).reverse ++ w.pending
  here := if flows then some (i + 1, after) else none
  peak := max (max w.peak d) after

/-- What every stage of a walk keeps. -/
structure Inv (code : List Insn) (guards : List Guard) (w : Walk) : Prop where
  /-- The walk knows only of states that control gets into. -/
  reaches : ∀ s, w.Tracks s → Reaches code guards s
  /-- It knows of all states that control starts in. -/
  entries : ∀ s, Entry code guards s → w.Tracks s
  /-- It knows where control goes on from the states that it has met. -/
  closed : ∀ s ∈ w.met, ∀ s', Step code s s' → w.Tracks s'
  /-- Each place was met with one depth. -/
  unique : ∀ i d, (i, d) ∈ w.met → w.depth? i = some d
  /-- The instructions met can be carried out. -/
  applies : ∀ s ∈ w.met, Applies code s
  /-- The peak is the greatest depth met. -/
  peak : IsGreatest (insert 0 (depthsAt code (· ∈ w.met))) w.peak

/-- What a successful visit does. -/
theorem visit_ok {w w' : Walk} {i d : Nat} (h : visit code w i d = .ok w') :
    (w.depth? i = some d ∧ w' = { w with here := none }) ∨
    (w.depth? i = none ∧ ∃ insn pops pushes targets, code[i]? = some insn ∧
      effect insn = .ok (pops, pushes) ∧ pops ≤ d ∧
      List.Forall₂ (fun l t => place? code l = some t) insn.targets targets ∧
      w' = w.advance i d targets (!insn.endsFlow) (d - pops + pushes)) := by
  unfold visit at h
  split at h
  · cases h
  · rename_i insn hinsn
    split at h
    · rename_i seen hseen
      split at h
      · rename_i heq
        cases h
        exact .inl ⟨heq ▸ hseen, rfl⟩
      · cases h
    · -- A place without a depth is new, and the walk goes on from it.
      rename_i hnew
      obtain ⟨⟨pops, pushes⟩, heff, h⟩ := bind_eq_ok_iff.1 h
      by_cases hd : d < pops
      · simp [hd, throw, throwThe, MonadExceptOf.throw, bind, Except.bind] at h
      · simp only [hd, if_false] at h
        obtain ⟨targets, htargets, h⟩ := bind_eq_ok_iff.1 h
        cases h
        have hplaces := (mapM_eq_ok_iff.1 htargets).imp fun _ _ => resolve_eq_ok_iff.1
        refine .inr ⟨hnew, insn, pops, pushes, targets, hinsn, heff, by omega, hplaces, ?_⟩
        cases hflow : insn.endsFlow <;> simp [advance]

/-- What a visit fails on. -/
theorem visit_error {w : Walk} {i d : Nat} {e : CodeError} (h : visit code w i d = .error e) :
    (code[i]? = none ∧ e = .fallOffEnd) ∨
    (∃ seen, w.depth? i = some seen ∧ seen ≠ d ∧ e = .inconsistent i seen d) ∨
    ∃ insn, code[i]? = some insn ∧
      (effect insn = .error e ∨
        (∃ pops pushes, effect insn = .ok (pops, pushes) ∧ d < pops ∧
          e = .underflow i insn.render d pops) ∨
        ∃ l ∈ insn.targets, place? code l = none ∧ e = .unbound l) := by
  unfold visit at h
  split at h
  · rename_i hnone
    cases h
    exact .inl ⟨hnone, rfl⟩
  · rename_i insn hinsn
    split at h
    · rename_i seen hseen
      split at h
      · cases h
      · rename_i hne
        cases h
        exact .inr (.inl ⟨seen, hseen, hne, rfl⟩)
    · refine .inr (.inr ⟨insn, hinsn, ?_⟩)
      rcases bind_eq_error_iff.1 h with heff | ⟨⟨pops, pushes⟩, heff, h⟩
      · exact .inl heff
      · by_cases hd : d < pops
        · simp only [hd, if_true] at h
          cases h
          exact .inr (.inl ⟨pops, pushes, heff, hd, rfl⟩)
        · simp only [hd, if_false] at h
          rcases bind_eq_error_iff.1 h with h | ⟨targets, -, h⟩
          · obtain ⟨l, hl, h⟩ := exists_of_mapM_eq_error h
            obtain ⟨hplace, rfl⟩ := resolve_eq_error_iff.1 h
            exact .inr (.inr ⟨l, hl, hplace, rfl⟩)
          · cases h

/-- The depths at one more state. -/
theorem depthsAt_cons {met : List Point} {i d pops pushes : Nat} {insn : Insn}
    (hinsn : code[i]? = some insn) (heff : effect insn = .ok (pops, pushes)) :
    depthsAt code (· ∈ (i, d) :: met) =
      insert (d - pops + pushes) (insert d (depthsAt code (· ∈ met))) := by
  ext n
  simp only [depthsAt, List.mem_cons, Set.mem_ofPred_eq, Set.mem_insert_iff]
  constructor
  · rintro ⟨j, k, hmem | hmem, hn⟩
    · cases hmem
      -- Only one instruction stands at the place, so that its effect is known.
      rcases hn with rfl | ⟨insn', pops', pushes', hinsn', heff', rfl⟩
      · exact .inr (.inl rfl)
      · cases hinsn.symm.trans hinsn'
        cases heff.symm.trans heff'
        exact .inl rfl
    · exact .inr (.inr ⟨j, k, hmem, hn⟩)
  · rintro (rfl | rfl | ⟨j, k, hmem, hn⟩)
    · exact ⟨i, d, .inl rfl, .inr ⟨insn, pops, pushes, hinsn, heff, rfl⟩⟩
    · exact ⟨i, n, .inl rfl, .inl rfl⟩
    · exact ⟨j, k, .inr hmem, hn⟩

/-- A visit of an instruction that was met before keeps the invariant. -/
theorem Inv.skip {w : Walk} {i d : Nat} (hw : Inv code guards w) (hhere : w.here = some (i, d))
    (hmet : w.depth? i = some d) : Inv code guards { w with here := none } := by
  have hmem : (i, d) ∈ w.met := mem_of_lookup_eq_some hmet
  have htracks : ∀ s, w.Tracks s → Tracks { w with here := none } s := by
    rintro s (h | h | h)
    · exact .inl h
    · exact .inr (.inl h)
    · cases hhere.symm.trans h
      exact .inl hmem
  refine ⟨?_, fun s hs => htracks s (hw.entries s hs),
    fun s hs s' h => htracks s' (hw.closed s hs s' h), hw.unique, hw.applies, hw.peak⟩
  rintro s (h | h | h)
  · exact hw.reaches s (.inl h)
  · exact hw.reaches s (.inr (.inl h))
  · cases h

/-- Behind a new instruction the walk knows of what it knew, and of where control goes on from
there. -/
theorem tracks_advance_iff {w : Walk} {i d pops pushes : Nat} {insn : Insn} {targets : List Nat}
    (hhere : w.here = some (i, d)) (hinsn : code[i]? = some insn)
    (heff : effect insn = .ok (pops, pushes)) (hd : pops ≤ d)
    (htargets : List.Forall₂ (fun l t => place? code l = some t) insn.targets targets) {s : Point} :
    (w.advance i d targets (!insn.endsFlow) (d - pops + pushes)).Tracks s ↔
      w.Tracks s ∨ Step code (i, d) s := by
  constructor
  · rintro (h | h | h)
    · rcases List.mem_cons.1 h with rfl | h
      · exact .inl (.inr (.inr hhere))
      · exact .inl (.inl h)
    · rcases List.mem_append.1 h with h | h
      · rw [List.mem_reverse, List.mem_map] at h
        obtain ⟨t, ht, rfl⟩ := h
        obtain ⟨l, hl, hplace⟩ := exists_left_of_mem htargets ht
        exact .inr (.jump hinsn heff hd hl hplace)
      · exact .inl (.inr (.inl h))
    · cases hflow : insn.endsFlow with
      | true => simp [advance, hflow] at h
      | false =>
        simp only [advance, hflow, Bool.not_false, if_true, Option.some.injEq] at h
        exact .inr (h ▸ .next hinsn heff hd hflow)
  · rintro ((h | h | h) | hstep)
    · exact .inl (List.mem_cons_of_mem _ h)
    · exact .inr (.inl (List.mem_append_right _ h))
    · cases hhere.symm.trans h
      exact .inl List.mem_cons_self
    · -- The step leads to a target, now pending, or to the instruction behind this one.
      cases hstep with
      | jump hinsn' heff' _ hl hplace =>
        cases hinsn.symm.trans hinsn'
        cases heff.symm.trans heff'
        obtain ⟨t, ht, hplace'⟩ := exists_right_of_mem htargets hl
        cases hplace.symm.trans hplace'
        exact .inr (.inl (List.mem_append_left _ (by simpa using ht)))
      | next hinsn' heff' _ hflow =>
        cases hinsn.symm.trans hinsn'
        cases heff.symm.trans heff'
        exact .inr (.inr (by simp [advance, hflow]))

/-- A visit of a new instruction keeps the invariant. -/
theorem Inv.meet {w : Walk} {i d pops pushes : Nat} {insn : Insn} {targets : List Nat}
    (hw : Inv code guards w) (hhere : w.here = some (i, d)) (hnew : w.depth? i = none)
    (hinsn : code[i]? = some insn) (heff : effect insn = .ok (pops, pushes)) (hd : pops ≤ d)
    (htargets : List.Forall₂ (fun l t => place? code l = some t) insn.targets targets) :
    Inv code guards (w.advance i d targets (!insn.endsFlow) (d - pops + pushes)) := by
  have htracks := fun s => tracks_advance_iff hhere hinsn heff hd htargets (s := s)
  refine
    { reaches := fun s hs => ?_
      entries := fun s hs => (htracks s).2 (.inl (hw.entries s hs))
      closed := fun s hs s' hstep => (htracks s').2 ?_
      unique := fun j k hmem => ?_
      applies := fun s hs => ?_
      peak := ?_ }
  · rcases (htracks s).1 hs with hs | hstep
    · exact hw.reaches s hs
    · exact .step (hw.reaches _ (.inr (.inr hhere))) hstep
  · rcases List.mem_cons.1 hs with rfl | hs
    · exact .inr hstep
    · exact .inl (hw.closed s hs s' hstep)
  · rcases List.mem_cons.1 hmem with h | hmem
    · cases h
      simp [depth?, advance]
    · -- What was met before is not at the new place, which had no depth.
      have hk := hw.unique j k hmem
      have hne : j ≠ i := by
        rintro rfl
        rw [hnew] at hk
        cases hk
      rw [depth?, advance, List.lookup_cons, beq_false_of_ne hne]
      exact hk
  · rcases List.mem_cons.1 hs with rfl | hs
    · exact ⟨insn, pops, pushes, hinsn, heff, hd⟩
    · exact hw.applies s hs
  · -- The new state adds the depths in front of the instruction and behind it.
    have h := (hw.peak.insert d).insert (d - pops + pushes)
    rw [max_comm, max_comm d, Set.insert_comm d, Set.insert_comm _ 0] at h
    simpa only [advance, depthsAt_cons hinsn heff] using h

/-- Going on with a pending path keeps the invariant. -/
theorem Inv.resume {w : Walk} {p : Point} {rest : List Point} (hw : Inv code guards w)
    (hhere : w.here = none) (hpending : w.pending = p :: rest) :
    Inv code guards { w with pending := rest, here := some p } := by
  have htracks : ∀ s, Tracks { w with pending := rest, here := some p } s ↔ w.Tracks s := by
    intro s
    -- The state only changes from one that is pending to the one that is visited next.
    simp only [Tracks, hhere, hpending, List.mem_cons, Option.some.injEq, reduceCtorEq, or_false]
    tauto
  exact ⟨fun s hs => hw.reaches s ((htracks s).1 hs), fun s hs => (htracks s).2 (hw.entries s hs),
    fun s hs s' h => (htracks s').2 (hw.closed s hs s' h), hw.unique, hw.applies, hw.peak⟩

/-- A walk that starts at the entries has the invariant. -/
theorem Inv.start {points : List Point} (h : ∀ s, s ∈ points ↔ Entry code guards s) :
    Inv code guards (Walk.start points) := by
  refine ⟨?_, fun s hs => .inr (.inl ((h s).2 hs)), ?_, ?_, ?_, ?_⟩
  · rintro s (hs | hs | hs)
    · cases hs
    · exact .entry ((h s).1 hs)
    · cases hs
  · intro s hs
    cases hs
  · intro i d hs
    cases hs
  · intro s hs
    cases hs
  · simp [Walk.start, depthsAt]

/-- Every visit keeps the invariant. -/
theorem Inv.visit {w w' : Walk} {i d : Nat} (hw : Inv code guards w) (hhere : w.here = some (i, d))
    (h : visit code w i d = .ok w') : Inv code guards w' := by
  rcases visit_ok h with ⟨hmet, rfl⟩ |
    ⟨hnew, insn, pops, pushes, targets, hinsn, heff, hd, htargets, rfl⟩
  · exact hw.skip hhere hmet
  · exact hw.meet hhere hnew hinsn heff hd htargets

/-- A visit that fails has come upon a fault. -/
theorem Inv.fault {w : Walk} {i d : Nat} {e : CodeError} (hw : Inv code guards w)
    (hhere : w.here = some (i, d)) (h : Walk.visit code w i d = .error e) :
    Fault code guards e := by
  have hreach : Reaches code guards (i, d) := hw.reaches _ (.inr (.inr hhere))
  rcases visit_error h with ⟨hnone, rfl⟩ | ⟨seen, hseen, hne, rfl⟩ | ⟨insn, hinsn, h⟩
  · exact .fallOffEnd hreach hnone
  · have hmem : (i, seen) ∈ w.met := mem_of_lookup_eq_some hseen
    exact .inconsistent (hw.reaches _ (.inl hmem)) hreach hne
  · rcases h with heff | ⟨pops, pushes, heff, hd, rfl⟩ | ⟨l, hl, hplace, rfl⟩
    · exact .noEffect hreach hinsn heff
    · exact .underflow hreach hinsn heff hd
    · exact .unbound hreach hinsn hl hplace

/-- A finished walk has the invariant, and nothing is left to meet. -/
theorem finish_inv {w w' : Walk} (hw : Inv code guards w) (h : finish code w = .ok w') :
    Inv code guards w' ∧ w'.pending = [] ∧ w'.here = none := by
  fun_induction finish code w with
  | case1 w i d hhere e hvisit => cases h
  | case2 w i d hhere w₁ hvisit ih => exact ih (hw.visit hhere hvisit) h
  | case3 w hhere hpending =>
    cases h
    exact ⟨hw, hpending, hhere⟩
  | case4 w hhere p rest hpending ih => exact ih (hw.resume hhere hpending) h

/-- A failed walk has come upon a fault. -/
theorem fault_of_finish {w : Walk} {e : CodeError} (hw : Inv code guards w)
    (h : finish code w = .error e) : Fault code guards e := by
  fun_induction finish code w with
  | case1 w i d hhere e' hvisit =>
    cases h
    exact hw.fault hhere hvisit
  | case2 w i d hhere w₁ hvisit ih => exact ih (hw.visit hhere hvisit) h
  | case3 w hhere hpending => cases h
  | case4 w hhere p rest hpending ih => exact ih (hw.resume hhere hpending) h

/-- What a walk comes to if it ends within a number of stages. -/
def follow (code : List Insn) : Nat → Walk → Option (Except CodeError Walk)
  | 0, _ => none
  | n + 1, w =>
    match w.here with
    | some (i, depth) =>
      match visit code w i depth with
      | .error e => some (.error e)
      | .ok w' => follow code n w'
    | none =>
      match w.pending with
      | [] => some (.ok w)
      | p :: rest => follow code n { w with pending := rest, here := some p }

/-- A walk that ends comes to that. -/
theorem finish_eq_of_follow {code : List Insn} {n : Nat} {w : Walk} {x : Except CodeError Walk}
    (h : follow code n w = some x) : finish code w = x := by
  fun_induction finish code w generalizing n with
  | case1 w i d hhere e hvisit =>
    cases n with
    | zero => cases h
    | succ n =>
      rw [follow, hhere] at h
      simp only [hvisit] at h
      exact Option.some.inj h
  | case2 w i d hhere w₁ hvisit ih =>
    cases n with
    | zero => cases h
    | succ n =>
      rw [follow, hhere] at h
      simp only [hvisit] at h
      exact ih h
  | case3 w hhere hpending =>
    cases n with
    | zero => cases h
    | succ n =>
      rw [follow, hhere] at h
      simp only [hpending] at h
      exact Option.some.inj h
  | case4 w hhere p rest hpending ih =>
    cases n with
    | zero => cases h
    | succ n =>
      rw [follow, hhere] at h
      simp only [hpending] at h
      exact ih h

/-- A finished walk has met exactly the states that control gets into. -/
theorem mem_met_iff {w : Walk} (hw : Inv code guards w) (hpending : w.pending = [])
    (hhere : w.here = none) {s : Point} : s ∈ w.met ↔ Reaches code guards s := by
  have htracks : ∀ s, w.Tracks s → s ∈ w.met := by
    rintro s (h | h | h)
    · exact h
    · rw [hpending] at h
      cases h
    · rw [hhere] at h
      cases h
  refine ⟨fun hs => hw.reaches s (.inl hs), fun hs => ?_⟩
  -- Along the steps that lead to the state: the entries were met, and so was all that follows.
  induction hs with
  | entry hs => exact htracks _ (hw.entries _ hs)
  | step _ hstep ih => exact htracks _ (hw.closed _ ih _ hstep)

end Walk

/-- The places that a walk starts at are the entries. -/
theorem mem_entries_iff {handlers : List Nat}
    (h : List.Forall₂ (fun g i => place? code g.handler = some i) guards handlers) {s : Point} :
    s ∈ (entries code handlers).reverse ↔ Entry code guards s := by
  rw [List.mem_reverse, entries, List.mem_append, List.mem_map]
  constructor
  · rintro (hs | ⟨i, hi, rfl⟩)
    · by_cases hcode : code = []
      · simp [hcode] at hs
      · simp [hcode] at hs
        exact hs ▸ .first hcode
    · obtain ⟨g, hg, hplace⟩ := exists_left_of_mem h hi
      exact .handler hg hplace
  · rintro (hcode | ⟨hg, hplace⟩)
    · left
      simp [hcode]
    · right
      obtain ⟨i, hi, hplace'⟩ := exists_right_of_mem h hg
      cases hplace.symm.trans hplace'
      exact ⟨_, hi, rfl⟩

/-- The places of all labels of an entry of the exception table. -/
theorem handlerPlace_eq_ok {g : Guard} {i : Nat} (h : handlerPlace code g = .ok i) :
    place? code g.handler = some i := by
  obtain ⟨_, -, h⟩ := bind_eq_ok_iff.1 h
  obtain ⟨_, -, h⟩ := bind_eq_ok_iff.1 h
  exact resolve_eq_ok_iff.1 h

/-- The slots behind the variables that instructions access. -/
def variableEnds (code : List Insn) : Set Nat :=
  {n | ∃ op slot w, Insn.var op slot ∈ code ∧ op.varWidth? = some w ∧ n = slot + w}

/-- The slots behind them, as words of 16 bits. -/
def slotEnds (code : List Insn) : Set Nat :=
  {n | ∃ op slot w, Insn.var op slot ∈ code ∧ op.varWidth? = some w ∧ n = slotEnd slot w}

/-- If all of them fit into words, nothing starts over. -/
theorem slotEnds_eq (h : ∀ n ∈ variableEnds code, n < UInt16.size) :
    slotEnds code = variableEnds code := by
  ext n
  refine exists_congr fun op => exists_congr fun slot => exists_congr fun w => ?_
  refine and_congr_right fun hmem => and_congr_right fun hw => ?_
  rw [slotEnd_of_lt (h _ ⟨op, slot, w, hmem, hw, rfl⟩)]

/-- The end of one more variable. -/
theorem slotEnds_var {op : Opcode} {slot w : Nat} {rest : List Insn}
    (hw : op.varWidth? = some w) :
    slotEnds (.var op slot :: rest) = insert (slotEnd slot w) (slotEnds rest) := by
  ext n
  simp only [slotEnds, List.mem_cons, Set.mem_ofPred_eq, Set.mem_insert_iff]
  constructor
  · rintro ⟨op', slot', w', heq | hmem, hw', rfl⟩
    · cases heq
      cases hw.symm.trans hw'
      exact .inl rfl
    · exact .inr ⟨op', slot', w', hmem, hw', rfl⟩
  · rintro (rfl | ⟨op', slot', w', hmem, hw', rfl⟩)
    · exact ⟨op, slot, w, .inl rfl, hw, rfl⟩
    · exact ⟨op', slot', w', .inr hmem, hw', rfl⟩

/-- Other instructions access no variable. -/
theorem slotEnds_cons {i : Insn} {rest : List Insn} (hi : ∀ op slot, i ≠ .var op slot) :
    slotEnds (i :: rest) = slotEnds rest := by
  ext n
  have hmem : ∀ op slot, Insn.var op slot ∈ i :: rest ↔ Insn.var op slot ∈ rest := by
    intro op slot
    rw [List.mem_cons, or_iff_right fun h => hi op slot h.symm]
  simp only [slotEnds, hmem]

/-- A greater one of two least elements may be taken for both. -/
theorem isGreatest_insert_max {S : Set Nat} {a b n : Nat}
    (h : IsGreatest (insert (max a b) S) n) : IsGreatest (insert a (insert b S)) n := by
  obtain ⟨hmem, hle⟩ := h
  have hmax : max a b ≤ n := hle (Set.mem_insert _ _)
  constructor
  · -- The greater one is one of the two.
    rcases hmem with hn | hmem
    · rcases le_total a b with h | h
      · exact .inr (.inl (hn.trans (max_eq_right h)))
      · exact .inl (hn.trans (max_eq_left h))
    · exact .inr (.inr hmem)
  · rintro m (rfl | rfl | hm)
    · exact (le_max_left _ _).trans hmax
    · exact (le_max_right _ _).trans hmax
    · exact hle (.inr hm)

/-- The number of local variables is that of the last one, and every instruction on a variable has
a width. -/
theorem localsOf_eq_ok {least n : Nat} (h : localsOf least code = .ok n) :
    IsGreatest (insert least (slotEnds code)) n ∧
      ∀ op slot, Insn.var op slot ∈ code → ∃ w, op.varWidth? = some w := by
  fun_induction localsOf least code with
  | case1 least =>
    cases h
    simp [slotEnds]
  | case2 least op slot rest w hw ih =>
    obtain ⟨hgreatest, hwidths⟩ := ih h
    constructor
    · rw [slotEnds_var hw]
      exact isGreatest_insert_max hgreatest
    · intro op' slot' hmem
      rcases List.mem_cons.1 hmem with heq | hmem
      · cases heq
        exact ⟨w, hw⟩
      · exact hwidths op' slot' hmem
  | case3 => cases h
  | case4 least i rest hvar ih =>
    obtain ⟨hgreatest, hwidths⟩ := ih h
    have hi : ∀ op slot, i ≠ .var op slot := fun op slot heq => hvar op slot heq
    constructor
    · rwa [slotEnds_cons hi]
    · intro op slot hmem
      rcases List.mem_cons.1 hmem with heq | hmem
      · exact absurd heq.symm (hi op slot)
      · exact hwidths op slot hmem

/-- The steps of a successful measurement. -/
theorem exists_steps_of_maxSizes {argSlots : Nat} {m : Sizes}
    (h : maxSizes code guards argSlots = .ok m) :
    firstRepeat? (code.filterMap Insn.bound?) = none ∧ localsOf argSlots code = .ok m.locals ∧
      ∃ handlers w, guards.mapM (handlerPlace code) = .ok handlers ∧
        (Walk.start (entries code handlers).reverse).finish code = .ok w ∧ w.peak = m.stack ∧
        checkLines code = .ok () := by
  unfold maxSizes at h
  split at h
  · cases h
  · rename_i hrepeat
    obtain ⟨locals, hlocals, h⟩ := bind_eq_ok_iff.1 h
    obtain ⟨handlers, hhandlers, h⟩ := bind_eq_ok_iff.1 h
    obtain ⟨w, hfinish, h⟩ := bind_eq_ok_iff.1 h
    obtain ⟨⟨⟩, hlines, h⟩ := bind_eq_ok_iff.1 h
    cases h
    exact ⟨Option.eq_none_iff_forall_ne_some.2 hrepeat, hlocals, handlers, w, hhandlers, hfinish,
      rfl, hlines⟩

/-- Code is measured by following the walk for a number of stages. -/
theorem maxSizes_of_follow {code : List Insn} {guards : List Guard} {argSlots n stack locals : Nat}
    {handlers : List Nat} (hrepeat : firstRepeat? (code.filterMap Insn.bound?) = none)
    (hlocals : localsOf argSlots code = .ok locals)
    (hhandlers : guards.mapM (handlerPlace code) = .ok handlers)
    (hwalk : (Walk.follow code n (.start (entries code handlers).reverse)).map
      (Except.map Walk.peak) = some (.ok stack))
    (hlines : checkLines code = .ok ()) : maxSizes code guards argSlots = .ok ⟨stack, locals⟩ := by
  obtain ⟨x, hx, hpeak⟩ := Option.map_eq_some_iff.1 hwalk
  obtain ⟨w, rfl, rfl⟩ := map_eq_ok_iff.1 hpeak
  have hfinish := Walk.finish_eq_of_follow hx
  rw [maxSizes, hrepeat]
  refine bind_eq_ok_iff.2 ⟨locals, hlocals, bind_eq_ok_iff.2 ⟨handlers, hhandlers,
    bind_eq_ok_iff.2 ⟨w, hfinish, bind_eq_ok_iff.2 ⟨(), hlines, rfl⟩⟩⟩⟩

/-- A walk starts at the start of the code and at the handlers. -/
theorem inv_start_of_handlers {handlers : List Nat}
    (h : guards.mapM (handlerPlace code) = .ok handlers) :
    (Walk.start (entries code handlers).reverse).Inv code guards := by
  have hplaces := (mapM_eq_ok_iff.1 h).imp fun _ _ => handlerPlace_eq_ok
  exact Walk.Inv.start fun s => mem_entries_iff (s := s) hplaces

/-- A successful measurement comes from a finished walk. -/
theorem exists_walk_of_maxSizes {argSlots : Nat} {m : Sizes}
    (h : maxSizes code guards argSlots = .ok m) :
    ∃ handlers w, (Walk.start (entries code handlers).reverse).finish code = .ok w ∧
      w.Inv code guards ∧ w.pending = [] ∧ w.here = none ∧ m.stack = w.peak := by
  obtain ⟨-, -, handlers, w, hhandlers, hfinish, hpeak, -⟩ := exists_steps_of_maxSizes h
  obtain ⟨hw, hpending, hhere⟩ := Walk.finish_inv (inv_start_of_handlers hhandlers) hfinish
  exact ⟨handlers, w, hfinish, hw, hpending, hhere, hpeak.symm⟩

/-- A label of an entry of the exception table that is bound nowhere. -/
theorem handlerPlace_eq_error {g : Guard} {e : CodeError} (h : handlerPlace code g = .error e) :
    ∃ l ∈ g.labels, place? code l = none ∧ e = .unbound l := by
  rcases bind_eq_error_iff.1 h with h | ⟨_, -, h⟩
  · exact ⟨g.start, by simp [Guard.labels], resolve_eq_error_iff.1 h⟩
  · rcases bind_eq_error_iff.1 h with h | ⟨_, -, h⟩
    · exact ⟨g.stop, by simp [Guard.labels], resolve_eq_error_iff.1 h⟩
    · exact ⟨g.handler, by simp [Guard.labels], resolve_eq_error_iff.1 h⟩

/-- An instruction on a variable whose operation has no width. -/
theorem localsOf_eq_error {least : Nat} {e : CodeError} (h : localsOf least code = .error e) :
    ∃ op slot, Insn.var op slot ∈ code ∧ op.varWidth? = none ∧
      e = .invalidInsn (.notVariable op) := by
  fun_induction localsOf least code with
  | case1 => cases h
  | case2 least op slot rest w hw ih =>
    obtain ⟨op', slot', hmem, h⟩ := ih h
    exact ⟨op', slot', List.mem_cons_of_mem _ hmem, h⟩
  | case3 least op slot rest hw =>
    cases h
    exact ⟨op, slot, List.mem_cons_self, hw, rfl⟩
  | case4 least i rest hvar ih =>
    obtain ⟨op, slot, hmem, h⟩ := ih h
    exact ⟨op, slot, List.mem_cons_of_mem _ hmem, h⟩

/-- A line number whose label is bound nowhere. -/
theorem checkLines_eq_error {e : CodeError} (h : checkLines code = .error e) :
    ∃ n l, Insn.lineNumber n l ∈ code ∧ place? code l = none ∧ e = .unbound l := by
  obtain ⟨i, hi, h⟩ := exists_of_forM_eq_error h
  split at h
  · rename_i n l
    cases hl : resolve code l with
    | ok j =>
      rw [hl] at h
      cases h
    | error e' =>
      rw [hl] at h
      cases h
      exact ⟨n, l, hi, resolve_eq_error_iff.1 hl⟩
  · cases h

/-- Why a measurement fails: a label is bound twice, an instruction accesses no variable, the label
of an exception range or of a line is bound nowhere, or there is a fault on a path. -/
theorem maxSizes_eq_error {argSlots : Nat} {e : CodeError}
    (h : maxSizes code guards argSlots = .error e) :
    (∃ l, firstRepeat? (code.filterMap Insn.bound?) = some l ∧ e = .duplicate l) ∨
    (∃ op slot, Insn.var op slot ∈ code ∧ op.varWidth? = none ∧
      e = .invalidInsn (.notVariable op)) ∨
    (∃ g ∈ guards, ∃ l ∈ g.labels, place? code l = none ∧ e = .unbound l) ∨
    (∃ n l, Insn.lineNumber n l ∈ code ∧ place? code l = none ∧ e = .unbound l) ∨
    Fault code guards e := by
  -- The steps of a measurement are taken in this order, and each may fail.
  unfold maxSizes at h
  split at h
  · rename_i l hl
    cases h
    exact .inl ⟨l, hl, rfl⟩
  · right
    rcases bind_eq_error_iff.1 h with h | ⟨locals, -, h⟩
    · exact .inl (localsOf_eq_error h)
    · right
      rcases bind_eq_error_iff.1 h with h | ⟨handlers, hhandlers, h⟩
      · obtain ⟨g, hg, h⟩ := exists_of_mapM_eq_error h
        exact .inl ⟨g, hg, handlerPlace_eq_error h⟩
      · right
        rcases bind_eq_error_iff.1 h with h | ⟨w, -, h⟩
        · exact .inr (Walk.fault_of_finish (inv_start_of_handlers hhandlers) h)
        · rcases bind_eq_error_iff.1 h with h | ⟨-, -, h⟩
          · exact .inl (checkLines_eq_error h)
          · cases h

section Measured

variable {argSlots : Nat} {m : Sizes} (h : maxSizes code guards argSlots = .ok m)

include h

/-- Where control gets to in code that can be measured, there is an instruction that can be carried
out. -/
theorem applies_of_maxSizes : ∀ s, Reaches code guards s → Applies code s := by
  obtain ⟨-, w, -, hw, hpending, hhere, -⟩ := exists_walk_of_maxSizes h
  exact fun s hs => hw.applies s ((Walk.mem_met_iff hw hpending hhere).2 hs)

/-- Control gets to each place with one depth of the operand stack. -/
theorem depth_unique_of_maxSizes : ∀ i d d', Reaches code guards (i, d) →
    Reaches code guards (i, d') → d = d' := by
  obtain ⟨-, w, -, hw, hpending, hhere, -⟩ := exists_walk_of_maxSizes h
  intro i d d' hd hd'
  have h₁ := hw.unique i d ((Walk.mem_met_iff hw hpending hhere).2 hd)
  have h₂ := hw.unique i d' ((Walk.mem_met_iff hw hpending hhere).2 hd')
  exact Option.some.inj (h₁.symm.trans h₂)

/-- The greatest depth is that in front of an instruction that control gets to, or behind it. -/
theorem stack_of_maxSizes :
    IsGreatest (insert 0 (depthsAt code (Reaches code guards))) m.stack := by
  obtain ⟨-, w, -, hw, hpending, hhere, hstack⟩ := exists_walk_of_maxSizes h
  have heq : (· ∈ w.met) = Reaches code guards :=
    funext fun s => propext (Walk.mem_met_iff hw hpending hhere)
  rw [hstack, ← heq]
  exact hw.peak

/-- The number of local variables is that of the arguments, or the end of a variable. -/
theorem locals_of_maxSizes : IsGreatest (insert argSlots (slotEnds code)) m.locals ∧
    ∀ op slot, Insn.var op slot ∈ code → ∃ w, op.varWidth? = some w :=
  localsOf_eq_ok (exists_steps_of_maxSizes h).2.1

end Measured

/-- The sizes of a frame are exact. Every state that control gets into lies in the list, at an
instruction that can be carried out there, and no other depth is found at the same place. The
greatest depth in front of or behind such an instruction is the size of the operand stack, and the
greatest of the argument slots and the ends of the variables is the number of local variables. These
ends are words of 16 bits. They are the sums of slots and widths if all sums fit. -/
theorem maxSizes_exact {argSlots : Nat} {m : Sizes} (h : maxSizes code guards argSlots = .ok m) :
    (∀ s, Reaches code guards s → Applies code s) ∧
      (∀ i d d', Reaches code guards (i, d) → Reaches code guards (i, d') → d = d') ∧
      IsGreatest (insert 0 (depthsAt code (Reaches code guards))) m.stack ∧
      (∀ op slot, Insn.var op slot ∈ code → ∃ w, op.varWidth? = some w) ∧
      IsGreatest (insert argSlots (slotEnds code)) m.locals ∧
      ((∀ n ∈ variableEnds code, n < UInt16.size) →
        IsGreatest (insert argSlots (variableEnds code)) m.locals) := by
  obtain ⟨hlocals, hwidths⟩ := locals_of_maxSizes h
  refine ⟨applies_of_maxSizes h, depth_unique_of_maxSizes h, stack_of_maxSizes h, hwidths, hlocals,
    fun hfits => ?_⟩
  rwa [← slotEnds_eq hfits]

/-- A loop with a handler behind it: the stack is deepest where the test has a copy of the value. -/
def countdown : List Insn :=
  [.var .iload 0, .label ⟨0⟩, .simple .dup, .jump .ifeq ⟨1⟩, .simple .iconst1, .simple .isub,
    .jump .goto ⟨0⟩, .label ⟨1⟩, .simple .ireturn, .label ⟨2⟩, .simple .athrow]

/-- The range that the handler of `countdown` protects. -/
def countdownGuard : Guard := ⟨⟨0⟩, ⟨1⟩, ⟨2⟩, none⟩

/-- `maxSizes_exact` at a loop: two paths meet at its head, and one more comes in at the handler.
The only variable is that of the argument. -/
theorem countdown_sizes_exact :
    maxSizes countdown [countdownGuard] 1 = .ok ⟨2, 1⟩ ∧
      (∀ s, Reaches countdown [countdownGuard] s → Applies countdown s) ∧
      IsGreatest (insert 0 (depthsAt countdown (Reaches countdown [countdownGuard]))) 2 ∧
      (∀ n ∈ variableEnds countdown, n < UInt16.size) ∧
      IsGreatest (insert 1 (variableEnds countdown)) 1 := by
  have h : maxSizes countdown [countdownGuard] 1 = .ok ⟨2, 1⟩ := by cbv
  have hfits : ∀ n ∈ variableEnds countdown, n < UInt16.size := by
    rintro n ⟨op, slot, w, hmem, hw, rfl⟩
    obtain ⟨rfl, rfl⟩ : op = .iload ∧ slot = 0 := by simpa [countdown] using hmem
    cases hw
    decide
  obtain ⟨happlies, -, hstack, -, -, hlocals⟩ := maxSizes_exact h
  exact ⟨h, happlies, hstack, hfits, hlocals hfits⟩

end BytecodeLowering.Machine
