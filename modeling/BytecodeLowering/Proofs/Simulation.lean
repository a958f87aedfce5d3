import Mathlib.Tactic.Common

/-!
# Runs and simulations

Programs that are run step by step, and when two of them end in the same way.

* `Outcome`: what a step comes to: it is done, the whole program ends, or nothing is said.
* `run`, `Halts`: a number of steps, and the ends of a program. A program that runs forever or gets
  stuck does not end.
* `Simulates`: each step of one program is matched by steps of another one. A step may be matched by
  no step at all if a rank decreases.
* `Simulates.halts_iff`: the two programs end in the same ways.
-/

namespace BytecodeLowering

/-- What a computation comes to in a program that may end with it. -/
inductive Outcome (ω α : Type) where
  /-- The computation has a result, and the program goes on. -/
  | done (a : α)
  /-- The program ends. -/
  | ends (o : ω)
  /-- The computation has no meaning. -/
  | stuck
  deriving DecidableEq, Repr

namespace Outcome

variable {ω α β γ : Type}

/-- Goes on with a result. -/
def bind (x : Outcome ω α) (f : α → Outcome ω β) : Outcome ω β :=
  match x with
  | done a => f a
  | ends o => ends o
  | stuck => stuck

/-- Changes a result. -/
def map (f : α → β) (x : Outcome ω α) : Outcome ω β :=
  x.bind fun a => done (f a)

/-- Going on from a result is going on with it. -/
@[simp]
theorem done_bind {a : α} {f : α → Outcome ω β} : (done a : Outcome ω α).bind f = f a := rfl

/-- Nothing goes on from the end of the program. -/
@[simp]
theorem ends_bind {o : ω} {f : α → Outcome ω β} : (ends o : Outcome ω α).bind f = ends o := rfl

/-- Nothing goes on from a computation without a meaning. -/
@[simp]
theorem stuck_bind {f : α → Outcome ω β} : (stuck : Outcome ω α).bind f = stuck := rfl

/-- A result is changed. -/
@[simp]
theorem map_done {a : α} {f : α → β} : (done a : Outcome ω α).map f = done (f a) := rfl

/-- The end of the program has no result to change. -/
@[simp]
theorem map_ends {o : ω} {f : α → β} : (ends o : Outcome ω α).map f = ends o := rfl

/-- A computation without a meaning has no result to change. -/
@[simp]
theorem map_stuck {f : α → β} : (stuck : Outcome ω α).map f = stuck := rfl

/-- A changed result is the change of a result. -/
theorem map_eq_done_iff {x : Outcome ω α} {f : α → β} {b : β} :
    x.map f = done b ↔ ∃ a, x = done a ∧ f a = b := by
  cases x <;> simp

/-- A result that is not changed stays. -/
@[simp]
theorem map_id' {x : Outcome ω α} : (x.map fun a => a) = x := by
  cases x <;> rfl

/-- Going on twice is going on once with both. -/
theorem bind_assoc {x : Outcome ω α} {f : α → Outcome ω β} {g : β → Outcome ω γ} :
    (x.bind f).bind g = x.bind fun a => (f a).bind g := by
  cases x <;> rfl

/-- Changing a result twice is changing it once by both. -/
@[simp]
theorem map_map {x : Outcome ω α} {f : α → β} {g : β → γ} :
    (x.map f).map g = x.map fun a => g (f a) := by
  cases x <;> rfl

/-- Going on with a changed result is going on with the result by the change. -/
@[simp]
theorem bind_map {x : Outcome ω α} {f : α → β} {g : β → Outcome ω γ} :
    (x.map f).bind g = x.bind fun a => g (f a) := by
  cases x <;> rfl

/-- The result of going on is changed by what is gone on with. -/
@[simp]
theorem map_bind {x : Outcome ω α} {f : α → Outcome ω β} {g : β → γ} :
    (x.bind f).map g = x.bind fun a => (f a).map g := by
  cases x <;> rfl

/-- Computations that agree on the results gone on with come to the same. -/
theorem bind_congr {x : Outcome ω α} {f g : α → Outcome ω β} (h : ∀ a, x = done a → f a = g a) :
    x.bind f = x.bind g := by
  cases x with
  | done a => exact h a rfl
  | ends o => rfl
  | stuck => rfl

end Outcome

section Run

variable {σ ω : Type} {step : σ → Outcome ω σ} {s s' : σ} {o o' : ω} {n k : Nat}

/-- A number of steps of a program, up to its end. -/
def run (step : σ → Outcome ω σ) : Nat → σ → Outcome ω σ
  | 0, s => .done s
  | n + 1, s => (step s).bind (run step n)

/-- A program that is started in the given state ends in the given way. -/
def Halts (step : σ → Outcome ω σ) (s : σ) (o : ω) : Prop :=
  ∃ n, run step n s = .ends o

/-- Steps are taken one after the other. -/
theorem run_add : run step (n + k) s = (run step n s).bind (run step k) := by
  induction n generalizing s with
  | zero => rw [Nat.zero_add, run, Outcome.done_bind]
  | succ n ih =>
    rw [Nat.succ_add, run, run, Outcome.bind_assoc]
    exact Outcome.bind_congr fun s' _ => ih

/-- A program that has ended stays at its end. -/
theorem run_eq_ends_of_le (hle : n ≤ k) (h : run step n s = .ends o) :
    run step k s = .ends o := by
  obtain ⟨d, rfl⟩ := Nat.exists_eq_add_of_le hle
  rw [run_add, h, Outcome.ends_bind]

namespace Halts

/-- A program ends in one way only. -/
theorem unique (h : Halts step s o) (h' : Halts step s o') : o = o' := by
  obtain ⟨n, hn⟩ := h
  obtain ⟨k, hk⟩ := h'
  have hn := run_eq_ends_of_le (Nat.le_max_left n k) hn
  have hk := run_eq_ends_of_le (Nat.le_max_right n k) hk
  rw [hn] at hk
  cases hk
  rfl

/-- A program ends as it does from any state that it comes to. -/
theorem iff_of_run (h : run step n s = .done s') : Halts step s o ↔ Halts step s' o := by
  constructor
  · rintro ⟨k, hk⟩
    have hk := run_eq_ends_of_le (Nat.le_add_left k n) hk
    rw [run_add, h, Outcome.done_bind] at hk
    exact ⟨k, hk⟩
  · rintro ⟨k, hk⟩
    exact ⟨n + k, by rw [run_add, h, Outcome.done_bind, hk]⟩

/-- A program that gets stuck does not end. -/
theorem not_of_run (h : run step n s = .stuck) : ¬Halts step s o := by
  rintro ⟨k, hk⟩
  have hk := run_eq_ends_of_le (Nat.le_add_left k n) hk
  rw [run_add, h, Outcome.stuck_bind] at hk
  cases hk

end Halts

end Run

section Simulation

variable {σ τ ω : Type} {stepS : σ → Outcome ω σ} {stepT : τ → Outcome ω τ}
  {R : σ → τ → Prop} {rank : σ → Nat}

/-- What one step comes to is matched by steps of another program. -/
def Matched (stepT : τ → Outcome ω τ) (R : σ → τ → Prop) (rank : σ → Nat) (s : σ) (t : τ) :
    Outcome ω σ → Prop
  | .done s' => ∃ n t', run stepT n t = .done t' ∧ R s' t' ∧ (n = 0 → rank s' < rank s)
  | .ends o => ∃ n, run stepT n t = .ends o
  | .stuck => ∃ n, run stepT n t = .stuck

/-- Each step of a program is matched by steps of another one. -/
def Simulates (stepS : σ → Outcome ω σ) (stepT : τ → Outcome ω τ) (R : σ → τ → Prop)
    (rank : σ → Nat) : Prop :=
  ∀ s t, R s t → Matched stepT R rank s t (stepS s)

namespace Simulates

/-- If each step of a program is matched by steps of another one, the other one ends as it does. -/
theorem halts (h : Simulates stepS stepT R rank) {s : σ} {t : τ} (hR : R s t) {o : ω}
    (hends : Halts stepS s o) : Halts stepT t o := by
  obtain ⟨n, hn⟩ := hends
  -- The number of steps of the first program decides how often its steps are matched.
  induction n generalizing s t with
  | zero => cases hn
  | succ n ih =>
    have hmatch := h s t hR
    rw [run] at hn
    cases hs : stepS s with
    | done s' =>
      rw [hs] at hn hmatch
      obtain ⟨k, t', hk, hR', -⟩ := hmatch
      exact (Halts.iff_of_run hk).2 (ih hR' hn)
    | ends o' =>
      rw [hs] at hn hmatch
      cases hn
      exact hmatch
    | stuck =>
      rw [hs] at hn
      cases hn

/-- If each step of a program is matched by steps of another one, it ends as the other one does. -/
theorem halts_of_halts (h : Simulates stepS stepT R rank) {s : σ} {t : τ} (hR : R s t) {o : ω}
    (hends : Halts stepT t o) : Halts stepS s o := by
  obtain ⟨n, hn⟩ := hends
  -- Either the other program has fewer steps to go, or the rank is smaller.
  induction n using Nat.strongRecOn generalizing s t with
  | ind n ihn =>
  induction hr : rank s using Nat.strongRecOn generalizing s t with
  | ind r ihr =>
  have hmatch := h s t hR
  cases hs : stepS s with
  | done s' =>
    rw [hs] at hmatch
    obtain ⟨k, t', hk, hR', hrank⟩ := hmatch
    -- The matching steps do not reach the end, so that there are no more of them than to it.
    have hlt : k ≤ n := by
      by_contra hlt
      rw [run_eq_ends_of_le (Nat.le_of_not_le hlt) hn] at hk
      cases hk
    obtain ⟨d, rfl⟩ := Nat.exists_eq_add_of_le hlt
    rw [run_add, hk, Outcome.done_bind] at hn
    obtain ⟨j, hj⟩ : Halts stepS s' o := by
      rcases Nat.eq_zero_or_pos k with rfl | hpos
      · rw [Nat.zero_add] at ihr
        exact ihr (rank s') (hr ▸ hrank rfl) hR' hn rfl
      · exact ihn d (Nat.lt_add_of_pos_left hpos) hR' hn
    exact ⟨j + 1, by rw [run, hs, Outcome.done_bind, hj]⟩
  | ends o' =>
    -- No program ends in two ways.
    rw [hs] at hmatch
    obtain rfl := Halts.unique hmatch ⟨n, hn⟩
    exact ⟨1, by rw [run, hs, Outcome.ends_bind]⟩
  | stuck =>
    rw [hs] at hmatch
    obtain ⟨k, hk⟩ := hmatch
    exact absurd ⟨n, hn⟩ (Halts.not_of_run hk)

/-- If each step of a program is matched by steps of another one, the two end in the same ways. -/
theorem halts_iff (h : Simulates stepS stepT R rank) {s : σ} {t : τ} (hR : R s t) (o : ω) :
    Halts stepS s o ↔ Halts stepT t o :=
  ⟨h.halts hR, h.halts_of_halts hR⟩

end Simulates

end Simulation

end BytecodeLowering
