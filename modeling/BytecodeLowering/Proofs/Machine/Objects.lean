import BytecodeLowering.Proofs.Machine.Alike
import BytecodeLowering.Proofs.Machine.Rejection

/-!
# Objects on the operand stack

What straight code does with new objects. All other values are left open: an instruction takes and
leaves as many cells as its effect says, and what it leaves is any.

* `Cell`, `Snapshot`: a cell holds one of the objects that were made, or something else; a snapshot
  has the cells of the operand stack and of the variables.
* `Snapshot.step`, `Snapshot.run`: an instruction, and a list of instructions up to the one that
  leaves the method.
* `Sequential`, `run_append`: lists that are run through from their first to their last
  instruction; `Sequential.exists_depthAfter` for the start of code without defects.
* `exists_run`: such a list runs if the operand stack is deep enough, and leaves alone what lies
  deeper.
* `step_new`, `step_dup`, `step_load`, `step_store`, `step_init`: the instructions that objects are
  made, moved and completed with.
-/

namespace BytecodeLowering.Machine

/-- What a place of the operand stack or of a variable holds. -/
inductive Cell (α : Type) where
  /-- The object that was made when there were `n` others. -/
  | object (n : Nat)
  /-- Anything else. -/
  | other (a : α)
  deriving DecidableEq, Repr

/-- Whether the instruction makes an object. -/
def Insn.isNew : Insn → Bool
  | .type .new _ => true
  | _ => false

/-- Whether the instruction calls a constructor. -/
def Insn.isInit : Insn → Bool
  | .method .invokespecial _ name _ _ => name = "<init>"
  | _ => false

/-- The cells of a method, and the objects made and completed so far. -/
structure Snapshot (α : Type) where
  /-- The operand stack, its top first. -/
  stack : List (Cell α)
  /-- The variables. -/
  vars : Nat → Cell α
  /-- How many objects were made. -/
  made : Nat
  /-- What constructors were called on, the latest call first. -/
  completed : List (Cell α)

/-- What an instruction leaves in a cell where it makes, copies or loads nothing. -/
abbrev Leavings (α : Type) := Insn → Snapshot α → Nat → Cell α

namespace Snapshot

variable {α : Type} (f : Leavings α)

/-- What an instruction leaves in a cell of the operand stack, counted from the top. -/
def pushed (i : Insn) (s : Snapshot α) (k : Nat) : Cell α :=
  match i with
  | .type .new _ => .object s.made
  | .simple .dup => s.stack.head?.getD (f i s k)
  | .var _ n => s.vars (n + k)
  | i => f i s k

/-- The variables behind an instruction that takes the given number of cells. -/
def stored (i : Insn) (pops : Nat) (s : Snapshot α) (k : Nat) : Cell α :=
  match i with
  | .var _ n => if n ≤ k ∧ k < n + pops then s.stack[k - n]?.getD (s.vars k) else s.vars k
  | _ => s.vars k

/-- What an instruction does. It cannot be carried out if it may jump, if it has no effect, or if
there are too few cells for it. -/
def step (i : Insn) (s : Snapshot α) : Option (Snapshot α) :=
  match effect i with
  | .error _ => none
  | .ok (pops, pushes) =>
    if i.targets = [] ∧ pops ≤ s.stack.length then
      some {
        stack := (List.range pushes).map (s.pushed f i) ++ s.stack.drop pops
        vars := s.stored i pops
        made := if i.isNew then s.made + 1 else s.made
        completed :=
          if i.isInit then (s.stack.drop (pops - 1)).head?.toList ++ s.completed
          else s.completed }
    else none

/-- What a list of instructions does up to the one that control does not go on behind. -/
def run : List Insn → Snapshot α → Option (Snapshot α)
  | [], s => some s
  | i :: rest, s => (s.step f i).bind fun s => if i.endsFlow then some s else run rest s

end Snapshot

/-- Instructions without jumps, of which only the last one may leave the method. -/
structure Sequential (code : List Insn) : Prop where
  /-- There are no jumps. -/
  targets : ∀ i ∈ code, i.targets = []
  /-- Control goes on behind all instructions but the last one. -/
  flows : ∀ i ∈ code.dropLast, i.endsFlow = false

namespace Sequential

variable {code code' : List Insn}

/-- The instructions of the first part of a list are followed by others. -/
theorem left (h : Sequential (code ++ code')) : Sequential code := by
  refine ⟨fun i hi => h.targets i (List.mem_append_left _ hi), fun i hi => h.flows i ?_⟩
  cases code' with
  | nil => rwa [List.append_nil]
  | cons j rest =>
    rw [List.dropLast_append_of_ne_nil (List.cons_ne_nil j rest)]
    exact List.mem_append_left _ (List.mem_of_mem_dropLast hi)

/-- So are those of the second part but for the last one. -/
theorem right (h : Sequential (code ++ code')) : Sequential code' := by
  refine ⟨fun i hi => h.targets i (List.mem_append_right _ hi), fun i hi => h.flows i ?_⟩
  cases code' with
  | nil => cases hi
  | cons j rest =>
    rw [List.dropLast_append_of_ne_nil (List.cons_ne_nil j rest)]
    exact List.mem_append_right _ hi

/-- Control goes on behind the instructions in front of others. -/
theorem endsFlow_eq_false (h : Sequential (code ++ code')) (hne : code' ≠ []) :
    ∀ i ∈ code, i.endsFlow = false := by
  intro i hi
  refine h.flows i ?_
  rw [List.dropLast_append_of_ne_nil hne]
  exact List.mem_append_left _ hi

/-- Instructions that control goes on behind, in front of others. -/
theorem append (hcode : ∀ i ∈ code, i.targets = [] ∧ i.endsFlow = false)
    (h : Sequential code') : Sequential (code ++ code') := by
  refine ⟨fun i hi => ?_, fun i hi => ?_⟩
  · rcases List.mem_append.1 hi with hi | hi
    · exact (hcode i hi).1
    · exact h.targets i hi
  · -- The last instruction of the first list is the last one of both only if the other one is
    -- empty.
    cases code' with
    | nil =>
      rw [List.append_nil] at hi
      exact (hcode i (List.mem_of_mem_dropLast hi)).2
    | cons j rest =>
      rw [List.dropLast_append_of_ne_nil (List.cons_ne_nil j rest)] at hi
      rcases List.mem_append.1 hi with hi | hi
      · exact (hcode i hi).2
      · exact h.flows i hi

/-- Instructions that control goes on behind. -/
theorem of_flows (hcode : ∀ i ∈ code, i.targets = [] ∧ i.endsFlow = false) : Sequential code :=
  ⟨fun i hi => (hcode i hi).1, fun i hi => (hcode i (List.mem_of_mem_dropLast hi)).2⟩

/-- At the start of code without defects there is always enough on the operand stack. -/
theorem exists_depthAfter {guards : List Guard} (h : Sequential code)
    (hflawless : Flawless (code ++ code') guards) : ∃ d, depthAfter 0 code = some d := by
  -- Control comes to each instruction with the depth behind those in front of it.
  have hprefix : ∀ k, k ≤ code.length → ∃ d, depthAfter 0 (code.take k) = some d ∧
      (k < code.length → Reaches (code ++ code') guards (k, d)) := by
    intro k hk
    induction k with
    | zero =>
      refine ⟨0, by rw [List.take_zero]; rfl, fun hlt => .entry (.first fun hnil => ?_)⟩
      rw [(List.append_eq_nil_iff.1 hnil).1] at hlt
      exact absurd hlt (Nat.not_lt_zero 0)
    | succ k ih =>
      obtain ⟨d, hd, hreaches⟩ := ih (Nat.le_of_succ_le hk)
      have hinsn : (code ++ code')[k]? = some code[k] := by
        rw [List.getElem?_append_left hk, List.getElem?_eq_getElem hk]
      obtain ⟨pops, pushes, heffect⟩ := hflawless.effects k d _ (hreaches hk) hinsn
      have hpops := hflawless.deep k d _ _ _ (hreaches hk) hinsn heffect
      refine ⟨_, depthAfter_take_succ hk hd heffect hpops, fun hlt => ?_⟩
      have hflow : code[k].endsFlow = false := by
        refine h.flows _ (List.mem_of_getElem? (i := k) ?_)
        rw [List.getElem?_dropLast, if_pos (by omega), List.getElem?_eq_getElem hk]
      exact .step (hreaches hk) (.next hinsn heffect hpops hflow)
  obtain ⟨d, hd, -⟩ := hprefix code.length (Nat.le_refl _)
  rw [List.take_length] at hd
  exact ⟨d, hd⟩

end Sequential

namespace Snapshot

variable {α : Type} {f : Leavings α} {s s' : Snapshot α} {code code' : List Insn} {i : Insn}

/-- An instruction is carried out iff it does not jump and there are enough cells. -/
theorem step_eq_some {pops pushes : Nat} (heffect : effect i = .ok (pops, pushes))
    (htargets : i.targets = []) (hpops : pops ≤ s.stack.length) :
    s.step f i = some {
      stack := (List.range pushes).map (s.pushed f i) ++ s.stack.drop pops
      vars := s.stored i pops
      made := if i.isNew then s.made + 1 else s.made
      completed :=
        if i.isInit then (s.stack.drop (pops - 1)).head?.toList ++ s.completed
        else s.completed } := by
  rw [step, heffect]
  exact if_pos ⟨htargets, hpops⟩

/-- One instruction by itself. -/
theorem run_singleton : s.run f [i] = s.step f i := by
  rw [run]
  cases s.step f i with
  | none => rfl
  | some s' => cases h : i.endsFlow <;> simp [run]

/-- A list that is run through in two parts. -/
theorem run_append (h : Sequential (code ++ code')) :
    s.run f (code ++ code') = (s.run f code).bind fun s => s.run f code' := by
  rcases eq_or_ne code' [] with rfl | hne
  · rw [List.append_nil]
    cases s.run f code <;> rfl
  have hflows := h.endsFlow_eq_false hne
  clear h
  induction code generalizing s with
  | nil => rfl
  | cons i code ih =>
    obtain ⟨hi, hrest⟩ := List.forall_mem_cons.1 hflows
    rw [List.cons_append, run, run]
    simp only [hi, Bool.false_eq_true, if_false, Option.bind_assoc, ih hrest]

/-- Labels and line numbers do nothing. -/
theorem step_of_isMark (h : i.isMark) : s.step f i = some s := by
  cases i with
  | label | lineNumber => rw [step_eq_some rfl rfl (Nat.zero_le _)]; rfl
  | _ => cases h

theorem run_of_isMark (h : ∀ i ∈ code, i.isMark) : s.run f code = some s := by
  induction code with
  | nil => rfl
  | cons i code ih =>
    obtain ⟨hi, hrest⟩ := List.forall_mem_cons.1 h
    rw [run, step_of_isMark hi, Option.bind_some, Insn.endsFlow_of_isMark hi]
    exact ih hrest

/-- Labels and line numbers behind a list do nothing, wherever it is left. -/
theorem run_append_of_isMark (h : ∀ i ∈ code', i.isMark) :
    s.run f (code ++ code') = s.run f code := by
  induction code generalizing s with
  | nil => exact run_of_isMark h
  | cons i code ih => simp only [List.cons_append, run, ih]

/-- Labels and line numbers in front of a list do nothing. -/
theorem run_isMark_append (h : ∀ i ∈ code, i.isMark) :
    s.run f (code ++ code') = s.run f code' := by
  induction code with
  | nil => rfl
  | cons i code ih =>
    obtain ⟨hi, hrest⟩ := List.forall_mem_cons.1 h
    rw [List.cons_append, run, step_of_isMark hi, Option.bind_some, Insn.endsFlow_of_isMark hi]
    exact ih hrest

/-- A list is run through if there are enough cells on the operand stack; those below stay as they
are. -/
theorem exists_run {d e : Nat} (hcode : Sequential code) (hd : depthAfter d code = some e)
    (hs : d ≤ s.stack.length) :
    ∃ s' top, s.run f code = some s' ∧ s'.stack = top ++ s.stack.drop d ∧ top.length = e := by
  induction code generalizing s d with
  | nil =>
    cases hd
    exact ⟨s, s.stack.take e, rfl, (List.take_append_drop e _).symm, List.length_take_of_le hs⟩
  | cons i code ih =>
    rw [← List.singleton_append, depthAfter_append] at hd
    obtain ⟨d', hi, hd⟩ := Option.bind_eq_some_iff.1 hd
    obtain ⟨pops, pushes, heffect, hpops, rfl⟩ := depthAfter_singleton_iff.1 hi
    obtain ⟨s₁, hstep, hstack₁⟩ : ∃ s₁, s.step f i = some s₁ ∧
        s₁.stack = (List.range pushes).map (s.pushed f i) ++ s.stack.drop pops :=
      ⟨_, step_eq_some heffect (hcode.targets i List.mem_cons_self) (hpops.trans hs), rfl⟩
    have hlength : d - pops + pushes ≤ s₁.stack.length := by
      rw [hstack₁, List.length_append, List.length_map, List.length_range, List.length_drop]
      omega
    rw [← List.singleton_append] at hcode ⊢
    rw [run_append hcode, run_singleton, hstep, Option.bind_some]
    obtain ⟨s', top, hrun, hstack, htop⟩ := ih hcode.right hd hlength
    refine ⟨s', top, hrun, ?_, htop⟩
    -- What the instruction leaves is dropped with the rest of what it found.
    rw [hstack, hstack₁, List.drop_append, List.drop_eq_nil_of_le (by simp), List.nil_append,
      List.drop_drop, List.length_map, List.length_range]
    congr 2
    omega

/-- Constructors are called only by the instructions for it. -/
theorem completed_of_step (hi : i.isInit = false) (h : s.step f i = some s') :
    s'.completed = s.completed := by
  unfold step at h
  split at h
  · cases h
  · split at h
    · cases h
      simp [hi]
    · cases h

theorem completed_of_run (hcode : ∀ i ∈ code, i.isInit = false)
    (h : s.run f code = some s') : s'.completed = s.completed := by
  induction code generalizing s with
  | nil =>
    cases h
    rfl
  | cons i code ih =>
    -- No step completes an object but that of a constructor call.
    obtain ⟨hi, hrest⟩ := List.forall_mem_cons.1 hcode
    obtain ⟨s₁, hstep, h⟩ := Option.bind_eq_some_iff.1 h
    rw [← completed_of_step hi hstep]
    split at h
    · cases h
      rfl
    · exact ih hrest h

/-- Objects are only ever added. -/
theorem made_le_of_step (h : s.step f i = some s') : s.made ≤ s'.made := by
  unfold step at h
  split at h
  · cases h
  · split at h
    · cases h
      dsimp only
      split
      · exact Nat.le_succ _
      · exact Nat.le_refl _
    · cases h

theorem made_le_of_run (h : s.run f code = some s') : s.made ≤ s'.made := by
  induction code generalizing s with
  | nil =>
    cases h
    exact Nat.le_refl _
  | cons i code ih =>
    obtain ⟨s₁, hstep, h⟩ := Option.bind_eq_some_iff.1 h
    refine (made_le_of_step hstep).trans ?_
    split at h
    · cases h
      exact Nat.le_refl _
    · exact ih h

/-- A new object is the one with the next number. -/
theorem step_new {n : String} : s.step f (.type .new n) =
    some { s with stack := .object s.made :: s.stack, made := s.made + 1 } := by
  rw [step_eq_some rfl rfl (Nat.zero_le _)]
  rfl

/-- The cell on top is copied. -/
theorem step_dup {a : Cell α} {rest : List (Cell α)} (hs : s.stack = a :: rest) :
    s.step f (.simple .dup) = some { s with stack := a :: a :: rest } := by
  rw [step_eq_some (show effect (.simple .dup) = .ok (1, 2) from rfl) rfl (by simp [hs])]
  simp [pushed, hs, List.range_succ, Insn.isNew, Insn.isInit]
  rfl

/-- A variable of one cell is loaded. -/
theorem step_load {op : Opcode} {n : Nat} (hop : effect (.var op n) = .ok (0, 1)) :
    s.step f (.var op n) = some { s with stack := s.vars n :: s.stack } := by
  rw [step_eq_some hop rfl (Nat.zero_le _)]
  have hvars : s.stored (.var op n) 0 = s.vars := by
    funext k
    simp only [stored]
    exact if_neg (by omega)
  simp [pushed, hvars, Insn.isNew, Insn.isInit]

/-- A variable of one cell is stored. -/
theorem step_store {op : Opcode} {n : Nat} {a : Cell α} {rest : List (Cell α)}
    (hop : effect (.var op n) = .ok (1, 0)) (hs : s.stack = a :: rest) :
    s.step f (.var op n) =
      some { s with stack := rest, vars := Function.update s.vars n a } := by
  rw [step_eq_some hop rfl (by simp [hs])]
  have hvars : s.stored (.var op n) 1 = Function.update s.vars n a := by
    funext k
    rcases eq_or_ne k n with rfl | hne
    · simp [stored, hs]
    · rw [Function.update_of_ne hne]
      simp only [stored]
      exact if_neg (by omega)
  simp [hs, hvars, Insn.isNew, Insn.isInit]

/-- A constructor is called on the cell below its arguments. -/
theorem step_init {args rest : List (Cell α)} {a : Cell α} (hi : i.isInit)
    (heffect : effect i = .ok (args.length + 1, 0)) (hs : s.stack = args ++ a :: rest) :
    s.step f i = some { s with stack := rest, completed := a :: s.completed } := by
  cases i with
  | method op owner name desc isInterface =>
    rw [step_eq_some heffect rfl (by simp [hs])]
    -- The object is below the arguments, and what is left is below the object.
    have hdrop : s.stack.drop (args.length + 1) = rest := by
      rw [hs, ← List.drop_drop, List.drop_left]
      rfl
    have hbelow : s.stack.drop args.length = a :: rest := by rw [hs, List.drop_left]
    simp [hi, hdrop, hbelow, Insn.isNew]
    rfl
  | _ => cases hi

end Snapshot

end BytecodeLowering.Machine
