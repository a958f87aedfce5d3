import BytecodeLowering.Ir.Class
import BytecodeLowering.Proofs.Ir.Run
import Mathlib.Data.List.Induction

/-!
# Names for one variable

Straight code that assigns constants to locals and copies locals. A copy to a name for a caught
exception moves nothing: it makes that another name for the variable of the local that is copied.

* `Local.Word`, `StmtKind.Moves`: the locals and the statements of such code.
* `Aliases`, `Aliases.after`: what is in the variables, which of them a local is a name for, and
  which locals still have the values that they were assigned.
* `Aliases.Agrees`, `Aliases.Agrees.step`, `Aliases.exists_run`: these locals have the values that
  the statements give them.
* `Body.Copies`, `AssignsFirst`: bodies of such code that return a local, and read only what was
  assigned.
-/

namespace BytecodeLowering.Ir

/-- A variable of the program, or a name for a caught exception, of 32-bit integers. -/
structure Local.Word (l : Local) : Prop where
  /-- It holds 32-bit integers. -/
  ty : l.ty = .prim .int
  /-- It is a variable of the program or a name for a caught exception. -/
  role : l.role = .ordinary ∨ l.role = .handlerRef

/-- A statement that assigns a 32-bit integer to a local, or copies one. -/
def StmtKind.Moves : StmtKind → Prop
  | assign (.var l) (.operand (.const (.int _))) => l.Word
  | assign (.var l) (.operand (.var source)) => l.Word ∧ source.Word
  | _ => False

/-- Such a statement assigns a local. -/
theorem StmtKind.Moves.exists_def {k : StmtKind} (h : k.Moves) : ∃ l, k.def? = some l := by
  unfold Moves at h
  split at h
  · exact ⟨_, rfl⟩
  · exact ⟨_, rfl⟩
  · cases h

/-- Locals that are names for variables, of which several may name one. -/
structure Aliases where
  /-- The local that had the variable of a local first. -/
  home : Local → Local
  /-- What is in the variable that a local had first. -/
  value : Local → Int32
  /-- Whether the variable of a local still has the value that the local was assigned last. -/
  current : Local → Bool

namespace Aliases

/-- At the start every local has a variable of its own, and none was assigned. -/
def start : Aliases :=
  ⟨id, fun _ => 0, fun _ => false⟩

/-- What is read from the variable of a local. -/
def read (a : Aliases) (l : Local) : Int32 :=
  a.value (a.home l)

/-- Puts a value into the variable of a local, which is the value that the local is assigned if it
is `exact`. The other names for the variable lose theirs. -/
def store (a : Aliases) (l : Local) (v : Int32) (exact : Bool) : Aliases where
  home := a.home
  value := Function.update a.value (a.home l) v
  current l' := if l' = l then exact else a.current l' && a.home l' ≠ a.home l

/-- Copies a local to another one. A name for a caught exception becomes a name for the variable
that is copied, and nothing is moved within a variable. -/
def copy (a : Aliases) (l source : Local) : Aliases :=
  if l = source then a
  else if l.role = .handlerRef then
    { a with
      home := Function.update a.home l (a.home source)
      current := Function.update a.current l (a.current source) }
  else if a.home source = a.home l then
    { a with current := Function.update a.current l (a.current source) }
  else a.store l (a.read source) (a.current source)

/-- What a statement does. -/
def step (a : Aliases) : StmtKind → Aliases
  | .assign (.var l) (.operand (.const (.int v))) => a.store l v true
  | .assign (.var l) (.operand (.var source)) => a.copy l source
  | _ => a

/-- What some statements do, one after the other. -/
def after (stmts : List Stmt) : Aliases :=
  stmts.foldl (fun a s => a.step s.kind) start

/-- One more statement. -/
theorem after_concat (stmts : List Stmt) (s : Stmt) :
    after (stmts ++ [s]) = (after stmts).step s.kind :=
  List.foldl_append

variable {a : Aliases} {env : Env} {l l' source : Local} {v : Int32} {exact : Bool}

/-- A value is read from the variable that it was put into. -/
@[simp]
theorem read_store_self : (a.store l v exact).read l = v := by
  simp [read, store]

/-- It is read by all the names for the variable. -/
theorem read_store_of_eq (h : a.home l' = a.home l) : (a.store l v exact).read l' = v := by
  simp [read, store, h]

/-- Other variables keep what they have. -/
theorem read_store_of_ne (h : a.home l' ≠ a.home l) : (a.store l v exact).read l' = a.read l' := by
  simp [read, store, h]

/-- The locals that are current have the values that were assigned to them. -/
def Agrees (a : Aliases) (env : Env) : Prop :=
  ∀ l, a.current l → env l = .int (a.read l)

namespace Agrees

/-- Nothing is current at the start. -/
theorem start (env : Env) : Aliases.start.Agrees env :=
  nofun

/-- A local is assigned what is put into its variable, or is not current. -/
theorem store (h : a.Agrees env) {w : Value} (hw : exact → w = .int v) :
    (a.store l v exact).Agrees (Function.update env l w) := by
  intro l' hl'
  by_cases heq : l' = l
  · -- The local is current only if the value is the one that it is assigned.
    subst heq
    have hexact : exact := by simpa [Aliases.store] using hl'
    rw [Function.update_self, read_store_self]
    exact hw hexact
  · -- Another local that is still current is a name for another variable.
    obtain ⟨hcurrent, hne⟩ : a.current l' ∧ a.home l' ≠ a.home l := by
      simpa [Aliases.store, heq] using hl'
    rw [Function.update_of_ne heq, read_store_of_ne hne]
    exact h l' hcurrent

/-- A copy that moves nothing gives a local the value of the one that is copied, if it leads to its
variable. -/
theorem move {a' : Aliases} (h : a.Agrees env)
    (hcurrent : a'.current = Function.update a.current l (a.current source))
    (hread : ∀ l' ≠ l, a'.read l' = a.read l') (hl : a'.read l = a.read source) :
    a'.Agrees (Function.update env l (env source)) := by
  intro l' hl'
  rw [hcurrent] at hl'
  by_cases heq : l' = l
  · subst heq
    rw [Function.update_self] at hl' ⊢
    rw [hl]
    exact h source hl'
  · rw [Function.update_of_ne heq] at hl' ⊢
    rw [hread l' heq]
    exact h l' hl'

/-- A local is assigned the value of the one that is copied. -/
theorem copy (h : a.Agrees env) :
    (a.copy l source).Agrees (Function.update env l (env source)) := by
  unfold Aliases.copy
  split
  · rename_i heq
    rw [heq, Function.update_eq_self]
    exact h
  · -- A name for a caught exception becomes a name for another variable. The other locals do not.
    split
    · refine h.move rfl (fun l' hne => ?_) ?_
      · simp [read, Function.update_of_ne hne]
      · simp [read]
    · split
      · rename_i hhome
        exact h.move rfl (fun _ _ => rfl) (congrArg a.value hhome.symm)
      · exact h.store (h source)

/-- A statement assigns its local a value, and the locals that are current behind it have theirs. -/
theorem step (h : a.Agrees env) {k : StmtKind} (hk : k.Moves) :
    ∃ env', (a.step k).Agrees env' ∧
      ∀ b args j, k.exec b args ⟨j, env⟩ = .done ⟨j + 1, env'⟩ := by
  unfold StmtKind.Moves at hk
  split at hk
  · exact ⟨_, h.store fun _ => rfl, fun _ _ _ => rfl⟩
  · exact ⟨_, h.copy, fun _ _ _ => rfl⟩
  · cases hk

end Agrees

/-- Some statements at the start of a body are run, and the locals that are current behind them have
their values. -/
theorem exists_run {b : Body} {front back : List Stmt} (hb : b.stmts = front ++ back)
    (hmoves : ∀ s ∈ front, s.kind.Moves) (args : Nat → Value) :
    ∃ env, (after front).Agrees env ∧
      run (b.step args) front.length State.start = .done ⟨front.length, env⟩ := by
  -- By induction on the statements from the last one on, which is the next one to be run.
  induction front using List.reverseRecOn generalizing back with
  | nil => exact ⟨_, .start _, rfl⟩
  | append_singleton front s ih =>
    rw [List.append_assoc] at hb
    obtain ⟨hfront, hs⟩ := List.forall_mem_append.1 hmoves
    obtain ⟨env, hagrees, hrun⟩ := ih hb hfront
    obtain ⟨env', hagrees', hexec⟩ := hagrees.step (hs s List.mem_cons_self)
    have hstep : b.step args ⟨front.length, env⟩ = .done ⟨front.length + 1, env'⟩ := by
      simp [Body.step, hb, hexec]
    refine ⟨env', after_concat front s ▸ hagrees', ?_⟩
    rw [List.length_append, List.length_singleton, run_add, hrun, Outcome.done_bind, run, hstep]
    rfl

end Aliases

/-- A body for a method that assigns and copies 32-bit integers, and returns a local then. -/
structure Body.Copies (m : Method) (b : Body) (front : List Stmt) (l : Local) : Prop where
  /-- The return is the last statement. -/
  stmts : ∃ id line, b.stmts = front ++ [⟨id, line, .return (.var l)⟩]
  /-- The others assign and copy. -/
  moves : ∀ s ∈ front, s.kind.Moves
  /-- The local that is returned is one of them. -/
  word : l.Word
  /-- The method has a result of that category. -/
  ret : m.ret.category = .int

/-- Statements that read only locals that were assigned before. -/
def AssignsFirst (stmts : List Stmt) : Prop :=
  ∀ j (h : j < stmts.length), ∀ l ∈ stmts[j].kind.uses, ∃ s ∈ stmts.take j, s.kind.def? = some l

instance (stmts : List Stmt) : Decidable (AssignsFirst stmts) :=
  inferInstanceAs (Decidable (∀ j (h : j < stmts.length), ∀ l ∈ stmts[j].kind.uses,
    ∃ s ∈ stmts.take j, s.kind.def? = some l))

/-- What a statement reads was assigned by one in front of it. -/
theorem AssignsFirst.exists_def {front back : List Stmt} {s : Stmt}
    (h : AssignsFirst (front ++ s :: back)) {l : Local} (hl : l ∈ s.kind.uses) :
    ∃ x ∈ front, x.kind.def? = some l := by
  have hlt : front.length < (front ++ s :: back).length := by simp
  simpa using h front.length hlt l (by simpa using hl)

/-- A body returns what is in the variable of the local that it returns, if that is current. -/
theorem Body.Copies.halts {m : Method} {b : Body} {front : List Stmt} {l : Local}
    (h : b.Copies m front l) (hl : (Aliases.after front).current l) (args : Nat → Value) :
    Halts (b.step args) State.start (.returned (some (.int ((Aliases.after front).read l)))) := by
  obtain ⟨id, line, hstmts⟩ := h.stmts
  obtain ⟨env, hagrees, hrun⟩ := Aliases.exists_run hstmts h.moves args
  refine (Halts.iff_of_run hrun).2 ⟨1, ?_⟩
  rw [run, Body.step]
  simp [hstmts, StmtKind.exec, Operand.eval, hagrees l hl]

end BytecodeLowering.Ir
