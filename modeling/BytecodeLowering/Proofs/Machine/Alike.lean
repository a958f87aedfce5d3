import BytecodeLowering.Proofs.Machine.Sound
import Mathlib

/-!
# Code with the same depths

Straight code as the operand stack sees it.

* `passed`: the depths with which the instructions of a list are passed.
* `Alike`: lists with the same effect on the depth of the operand stack that access the same
  variables. `Alike.append`, `Alike.singleton` and `Alike.nil_of_idle` say when lists are alike.
-/

namespace BytecodeLowering.Machine

/-- The depth behind an instruction. -/
theorem depthAfter_singleton_iff {d e : Nat} {i : Insn} : depthAfter d [i] = some e ↔
    ∃ pops pushes, effect i = .ok (pops, pushes) ∧ pops ≤ d ∧ d - pops + pushes = e := by
  rw [depthAfter]
  split
  · rename_i pops pushes heffect
    simp [heffect, depthAfter]
  · rename_i heffect
    simp [heffect]

/-- The depth behind one more instruction. -/
theorem depthAfter_take_succ {x : List Insn} {i d e pops pushes : Nat} (hi : i < x.length)
    (hd : depthAfter e (x.take i) = some d) (heffect : effect x[i] = .ok (pops, pushes))
    (hpops : pops ≤ d) : depthAfter e (x.take (i + 1)) = some (d - pops + pushes) := by
  rw [List.take_succ_eq_append_getElem hi, depthAfter_append, hd, Option.bind_some]
  exact depthAfter_singleton_iff.2 ⟨pops, pushes, heffect, hpops, rfl⟩

variable {d n : Nat} {code code' code₁ code₁' code₂ code₂' : List Insn}

/-- The depths with which a list is passed that is entered with the given one. -/
def passed (d : Nat) (code : List Insn) : Set Nat :=
  {n | ∃ k, depthAfter d (code.take k) = some n}

/-- Two lists are passed one after the other. -/
theorem mem_passed_append_iff : n ∈ passed d (code ++ code') ↔
    n ∈ passed d code ∨ ∃ e, depthAfter d code = some e ∧ n ∈ passed e code' := by
  constructor
  · rintro ⟨k, hk⟩
    rw [List.take_append, depthAfter_append] at hk
    obtain ⟨e, he, hn⟩ := Option.bind_eq_some_iff.1 hk
    -- The passed depth lies in the first list, or the first list is over by then.
    by_cases hle : k ≤ code.length
    · rw [Nat.sub_eq_zero_of_le hle, List.take_zero] at hn
      cases hn
      exact .inl ⟨k, he⟩
    · rw [List.take_of_length_le (by omega)] at he
      exact .inr ⟨e, he, _, hn⟩
  · rintro (⟨k, hk⟩ | ⟨e, he, k, hk⟩)
    · refine ⟨min k code.length, ?_⟩
      rw [List.take_append_of_le_length (min_le_right _ _), ← List.take_take, List.take_length]
      exact hk
    · refine ⟨code.length + k, ?_⟩
      rw [List.take_length_add_append, depthAfter_append, he, Option.bind_some, hk]

/-- Code with the same effect on the depth of the operand stack, and the same variables. -/
structure Alike (code code' : List Insn) : Prop where
  /-- The depth behind it is the same. -/
  depthAfter_eq : ∀ d, depthAfter d code = depthAfter d code'
  /-- It is passed with the same depths. -/
  passed_eq : ∀ d, passed d code = passed d code'
  /-- It accesses the same variables. -/
  var_iff : ∀ op n, Insn.var op n ∈ code ↔ Insn.var op n ∈ code'

/-- An instruction that changes neither the operand stack nor a variable. -/
def Idle (i : Insn) : Prop :=
  effect i = .ok (0, 0) ∧ ∀ op n, i ≠ .var op n

/-- Labels and line numbers change nothing. -/
theorem idle_of_isMark {i : Insn} (h : i.isMark) : Idle i := by
  cases i with
  | label | lineNumber => exact ⟨rfl, nofun⟩
  | _ => cases h

namespace Alike

theorem refl (code : List Insn) : Alike code code :=
  ⟨fun _ => rfl, fun _ => rfl, fun _ _ => Iff.rfl⟩

theorem symm (h : Alike code code') : Alike code' code :=
  ⟨fun d => (h.depthAfter_eq d).symm, fun d => (h.passed_eq d).symm,
    fun op n => (h.var_iff op n).symm⟩

theorem trans (h : Alike code₁ code₂) (h' : Alike code₂ code') : Alike code₁ code' :=
  ⟨fun d => (h.depthAfter_eq d).trans (h'.depthAfter_eq d),
    fun d => (h.passed_eq d).trans (h'.passed_eq d),
    fun op n => (h.var_iff op n).trans (h'.var_iff op n)⟩

theorem append (h₁ : Alike code₁ code₁') (h₂ : Alike code₂ code₂') :
    Alike (code₁ ++ code₂) (code₁' ++ code₂') where
  depthAfter_eq d := by simp only [depthAfter_append, h₁.depthAfter_eq, h₂.depthAfter_eq]
  passed_eq d := by
    ext n
    simp only [mem_passed_append_iff, h₁.passed_eq, h₁.depthAfter_eq, h₂.passed_eq]
  var_iff op n := by simp only [List.mem_append, h₁.var_iff, h₂.var_iff]

/-- Instructions with the same effect that access no variables. -/
theorem singleton {i i' : Insn} (h : effect i = effect i') (hi : ∀ op n, i ≠ .var op n)
    (hi' : ∀ op n, i' ≠ .var op n) : Alike [i] [i'] where
  depthAfter_eq d := by simp only [depthAfter, h]
  passed_eq d := by
    ext n
    refine exists_congr fun k => ?_
    cases k with
    | zero => rfl
    | succ k => simp only [List.take_succ_cons, List.take_nil, depthAfter, h]
  var_iff op n := by simp [(hi op n).symm, (hi' op n).symm]

/-- Instructions that change nothing are like none. -/
theorem nil_of_idle (h : ∀ i ∈ code, Idle i) : Alike code [] := by
  induction code with
  | nil => exact .refl []
  | cons i code ih =>
    obtain ⟨⟨heffect, hvar⟩, hcode⟩ := List.forall_mem_cons.1 h
    have hi : Alike [i] [] := by
      refine ⟨fun d => by simp [depthAfter, heffect], fun d => ?_, fun op n => ?_⟩
      · ext n
        -- In front of it and behind it the depth is the same.
        constructor
        · rintro ⟨k, hk⟩
          cases k with
          | zero => exact ⟨0, hk⟩
          | succ k => exact ⟨0, by simpa [depthAfter, heffect] using hk⟩
        · rintro ⟨k, hk⟩
          exact ⟨0, by simpa using hk⟩
      · simp [(hvar op n).symm]
    exact hi.append (ih hcode)

end Alike

end BytecodeLowering.Machine
