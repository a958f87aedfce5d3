import BytecodeLowering.Lowering.Method
import BytecodeLowering.Proofs.Result

/-!
# Steps of the lowering

What a step of the lowering that succeeds says about its parts.

* `bind_run_iff`, `pure_run_iff`, `lift_run_iff` and the like: the steps that others are made of.
* `Lowers`: a step taken on the elements of a list one after the other; `mapM_run_iff`.
-/

namespace BytecodeLowering.Lowering

open Ir Machine

variable {α β : Type} {p p' p'' : Progress}

/-- A sequence succeeds iff both of its steps do, one after the other. -/
theorem bind_run_iff {x : Lower α} {f : α → Lower β} {b : β} :
    (x >>= f) p = .ok (b, p'') ↔ ∃ a p', x p = .ok (a, p') ∧ f a p' = .ok (b, p'') := by
  refine bind_eq_ok_iff.trans ⟨?_, ?_⟩
  · rintro ⟨⟨a, p'⟩, hx, hf⟩
    exact ⟨a, p', hx, hf⟩
  · rintro ⟨a, p', hx, hf⟩
    exact ⟨(a, p'), hx, hf⟩

/-- A sequence goes on where its first step stops. -/
theorem run_bind_of_ok {x : Lower α} {f : α → Lower β} {a : α} (h : x p = .ok (a, p')) :
    (x >>= f) p = f a p' := by
  change x p >>= _ = _
  rw [h]
  rfl

/-- Doing nothing gives the value and changes nothing. -/
theorem pure_run_iff {a b : α} : (pure a : Lower α) p = .ok (b, p') ↔ a = b ∧ p = p' := by
  change (Except.ok (a, p) : Lowered (α × Progress)) = _ ↔ _
  rw [Except.ok.injEq, Prod.mk.injEq]

/-- A result without a state is given as it is. -/
theorem lift_ok {a : α} : (liftM (Except.ok a : Lowered α) : Lower α) = pure a := rfl

/-- A step without a state changes nothing. -/
theorem lift_run_iff {x : Lowered α} {a : α} :
    (liftM x : Lower α) p = .ok (a, p') ↔ x = .ok a ∧ p = p' := by
  change (x >>= fun a => Except.ok (a, p)) = _ ↔ _
  rw [bind_eq_ok_iff]
  constructor
  · rintro ⟨a', hx, heq⟩
    cases heq
    exact ⟨hx, rfl⟩
  · rintro ⟨hx, rfl⟩
    exact ⟨a, hx, rfl⟩

/-- Reading the state gives it and changes nothing. -/
theorem get_run_iff {q : Progress} : (get : Lower Progress) p = .ok (q, p') ↔ p = q ∧ p = p' := by
  simp [get, getThe, MonadStateOf.get, StateT.get, pure, Except.pure]

/-- Writing the state replaces it. -/
theorem set_run_iff {q : Progress} {u : PUnit} :
    (set q : Lower PUnit) p = .ok (u, p') ↔ q = p' := by
  change (Except.ok ((), q) : Lowered (PUnit × Progress)) = _ ↔ _
  simp

/-- Changing the state applies the change. -/
theorem modify_run_iff {f : Progress → Progress} {u : PUnit} :
    (modify f : Lower PUnit) p = .ok (u, p') ↔ f p = p' := by
  simp [modify, modifyGet, MonadStateOf.modifyGet, StateT.modifyGet, pure, Except.pure]

/-- A step on the places of the locals keeps the rest of the state. -/
theorem onSlots_run_iff {f : Slots → Lowered (α × Slots)} {a : α} :
    onSlots f p = .ok (a, p') ↔
      ∃ slots, f p.slots = .ok (a, slots) ∧ { p with slots := slots } = p' := by
  rw [onSlots, map_eq_ok_iff]
  constructor
  · rintro ⟨⟨a', slots⟩, hf, heq⟩
    cases heq
    exact ⟨slots, hf, rfl⟩
  · rintro ⟨slots, hf, rfl⟩
    exact ⟨(a, slots), hf, rfl⟩

/-- A choice of steps is the step that is chosen. -/
theorem ite_run_iff {c : Prop} [Decidable c] {x y : Lower α} {a : α} :
    (if c then x else y) p = .ok (a, p') ↔
      c ∧ x p = .ok (a, p') ∨ ¬c ∧ y p = .ok (a, p') := by
  by_cases h : c <;> simp [h]

/-- Naming the place of an error does not change what succeeds. -/
theorem inStmt_run_iff {title text : String} {x : Lower α} {a : α} :
    inStmt title text x p = .ok (a, p') ↔ x p = .ok (a, p') :=
  mapError_eq_ok_iff

/-- An impossible step does not succeed. -/
theorem not_inconsistent {e : Inconsistency} {a : α} : (inconsistent e : Lowered α) ≠ .ok a :=
  nofun

/-- A step that there is no code for does not succeed. -/
theorem not_unsupported {e : Unsupported} {a : α} : (unsupported e : Lowered α) ≠ .ok a :=
  nofun

/-- A step taken on the elements of a list one after the other, each from where the one before it
stopped. -/
inductive Lowers (f : α → Lower β) : Progress → List α → List β → Progress → Prop
  | nil {p : Progress} : Lowers f p [] [] p
  | cons {p p' p'' : Progress} {x : α} {xs : List α} {y : β} {ys : List β} :
      f x p = .ok (y, p') → Lowers f p' xs ys p'' → Lowers f p (x :: xs) (y :: ys) p''

/-- A step on each element of a list is taken on one after the other. -/
theorem mapM_run_iff {f : α → Lower β} {xs : List α} {ys : List β} :
    xs.mapM f p = .ok (ys, p') ↔ Lowers f p xs ys p' := by
  induction xs generalizing p ys with
  | nil =>
    rw [List.mapM_nil, pure_run_iff]
    constructor
    · rintro ⟨rfl, rfl⟩
      exact .nil
    · rintro ⟨⟩
      exact ⟨rfl, rfl⟩
  | cons x xs ih =>
    simp only [List.mapM_cons, bind_run_iff, pure_run_iff]
    constructor
    · rintro ⟨y, q, hy, ys', q', hys, rfl, rfl⟩
      exact .cons hy (ih.1 hys)
    · rintro (_ | ⟨hy, hys⟩)
      exact ⟨_, _, hy, _, _, ih.2 hys, rfl, rfl⟩

namespace Lowers

variable {f : α → Lower β} {xs xs' : List α} {ys : List β}

/-- There is a result for each element. -/
theorem length_eq (h : Lowers f p xs ys p') : ys.length = xs.length := by
  induction h with
  | nil => rfl
  | cons _ _ ih => simp [ih]

/-- Each result comes from a step on its element. -/
theorem forall₂ (h : Lowers f p xs ys p') :
    List.Forall₂ (fun x y => ∃ q q', f x q = .ok (y, q')) xs ys := by
  induction h with
  | nil => exact .nil
  | cons hx _ ih => exact .cons ⟨_, _, hx⟩ ih

/-- The states in front of the steps, and behind the last one. -/
theorem exists_states (h : Lowers f p xs ys p') :
    ∃ st : Nat → Progress, st 0 = p ∧ st xs.length = p' ∧
      ∀ k x y, xs[k]? = some x → ys[k]? = some y → f x (st k) = .ok (y, st (k + 1)) := by
  induction h with
  | nil => exact ⟨fun _ => _, rfl, rfl, by simp⟩
  | @cons p _ _ _ _ _ _ hx _ ih =>
    obtain ⟨st, hst, hlast, hstep⟩ := ih
    refine ⟨fun k => Nat.casesOn k p st, rfl, hlast, fun k x' y' hx' hy' => ?_⟩
    cases k with
    | zero =>
      cases hx'
      cases hy'
      rw [← hst] at hx
      exact hx
    | succ k => exact hstep k x' y' hx' hy'

/-- What holds of no code, and of code behind code, holds of the code of all elements together. -/
theorem flatten {R : Progress → List Insn → Progress → Prop} {g : α → Lower (List Insn)}
    {codes : List (List Insn)} (hnil : ∀ p, R p [] p)
    (happend : ∀ {p p' p'' code code'}, R p code p' → R p' code' p'' → R p (code ++ code') p'')
    (h : Lowers g p xs codes p')
    (hg : ∀ x ∈ xs, ∀ q code q', g x q = .ok (code, q') → R q code q') :
    R p codes.flatten p' := by
  induction h with
  | nil => exact hnil _
  | cons hx _ ih =>
    exact happend (hg _ List.mem_cons_self _ _ _ hx)
      (ih fun x hx => hg x (List.mem_cons_of_mem _ hx))

/-- The steps on two lists together are those on the first one, then those on the second. -/
theorem append_iff :
    Lowers f p (xs ++ xs') ys p'' ↔
      ∃ zs zs' p', Lowers f p xs zs p' ∧ Lowers f p' xs' zs' p'' ∧ ys = zs ++ zs' := by
  induction xs generalizing p ys with
  | nil =>
    constructor
    · intro h
      exact ⟨[], ys, p, .nil, h, rfl⟩
    · rintro ⟨_, _, _, ⟨⟩, h, rfl⟩
      exact h
  | cons x xs ih =>
    constructor
    · rintro (_ | ⟨hx, hrest⟩)
      obtain ⟨zs, zs', q, hzs, hzs', rfl⟩ := ih.1 hrest
      exact ⟨_ :: zs, zs', q, .cons hx hzs, hzs', rfl⟩
    · rintro ⟨_, zs', q, _ | ⟨hx, hzs⟩, hzs', rfl⟩
      exact .cons hx (ih.2 ⟨_, zs', q, hzs, hzs', rfl⟩)

/-- Steps without a state are taken on each element for itself. -/
theorem lift_iff {g : α → Lowered β} :
    Lowers (fun x => liftM (g x)) p xs ys p' ↔
      List.Forall₂ (fun x y => g x = .ok y) xs ys ∧ p = p' := by
  constructor
  · intro h
    induction h with
    | nil => exact ⟨.nil, rfl⟩
    | cons hx _ ih =>
      obtain ⟨hx', rfl⟩ := lift_run_iff.1 hx
      exact ⟨.cons hx' ih.1, ih.2⟩
  · rintro ⟨h, rfl⟩
    induction h with
    | nil => exact .nil
    | cons hx _ ih => exact .cons (lift_run_iff.2 ⟨hx, rfl⟩) ih

/-- Another step that does the same where the first succeeds is taken in the same way. -/
theorem imp {γ : Type} {g : γ → Lower β} {R : γ → α → Prop} {zs : List γ}
    (hstep : ∀ z x q y q', R z x → f x q = .ok (y, q') → g z q = .ok (y, q'))
    (hR : List.Forall₂ R zs xs) (h : Lowers f p xs ys p') : Lowers g p zs ys p' := by
  induction h generalizing zs with
  | nil =>
    cases hR
    exact .nil
  | cons hx _ ih =>
    rcases hR with _ | ⟨hr, hrest⟩
    exact .cons (hstep _ _ _ _ _ hr hx) (ih hrest)

end Lowers

end BytecodeLowering.Lowering
