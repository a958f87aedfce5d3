import BytecodeLowering.Proofs.Ir.Alias
import BytecodeLowering.Proofs.Lowering.Compute
import BytecodeLowering.Proofs.Lowering.Objects

/-!
# Names for one slot

What the code of a method returns that assigns and copies 32-bit integers, some of them to names for
caught exceptions.

* `Aliased`: two locals are in one slot iff they are names for one variable.
* `Filled`, `Filled.step`: the slots of the locals have what is in their variables.
* `Tracks`, `Tracks.run`: so do they behind some statements, and what was assigned has a slot.
* `copies_of_lowerMethod`: the code returns what is in the variable of the local that is returned,
  which is what the statements return if the local is current.
* `not_copied_of_overwritten`: it need not be if another name for the variable was assigned since.
-/

namespace BytecodeLowering.Lowering

open Ir Machine

variable {a : Aliases} {home : Local → Local} {slots slots' : Slots} {f : Frame}
  {l l' source : Local} {x : Binding} {n : Nat} {c : MethodContext} {p p' : Progress}
  {code : List Insn}

section Aliased

/-- Locals in slots, those that had the variable of the same local first in one slot. -/
structure Aliased (home : Local → Local) (slots : Slots) : Prop where
  /-- A local is in a slot, in front of those that are still free. -/
  slot : ∀ l x, slots.binding? l = some x → ∃ n < slots.next, x = .slot n
  /-- Two locals are in one slot iff they are names for one variable. -/
  iff : ∀ l l' n n', slots.binding? l = some (.slot n) → slots.binding? l' = some (.slot n') →
    (n = n' ↔ home l = home l')
  /-- A local without a slot is the only name for its variable. -/
  free : ∀ l, slots.binding? l = none →
    home l = l ∧ ∀ l', (slots.binding? l').isSome → home l' ≠ l

namespace Aliased

/-- Nothing is shared at the start. -/
theorem start (h : ∀ l, slots.binding? l = none) : Aliased id slots where
  slot l x hx := by
    rw [h l] at hx
    cases hx
  iff l l' n n' hn := by
    rw [h l] at hn
    cases hn
  free l _ := ⟨rfl, fun l' hl' => by simp [h l'] at hl'⟩

/-- A local with a slot is where it was. -/
theorem isSome (h : Aliased home slots) (hl : (slots.binding? l).isSome) :
    ∃ n, slots.binding? l = some (.slot n) := by
  obtain ⟨x, hx⟩ := Option.isSome_iff_exists.1 hl
  obtain ⟨n, -, rfl⟩ := h.slot l x hx
  exact ⟨n, hx⟩

/-- A local is bound to a slot, and is from then on a name for the variable that is there. -/
theorem bind (h : Aliased home slots) {home' : Local → Local}
    (hbind : slots.bind l (.slot n) = .ok slots') (hhome : ∀ l' ≠ l, home' l' = home l')
    (hiff : ∀ l' n', l' ≠ l → slots.binding? l' = some (.slot n') →
      (n = n' ↔ home' l = home l'))
    (hfree : ∀ l' ≠ l, slots.binding? l' = none → home' l ≠ l') : Aliased home' slots' := by
  have hbinding : ∀ l', slots'.binding? l' = if l' = l then some (.slot n) else slots.binding? l' :=
    fun l' => Slots.binding?_bind hbind
  refine ⟨?_, fun l₁ l₂ n₁ n₂ h₁ h₂ => ?_, fun l₁ hl₁ => ?_⟩
  · -- The free slots begin behind the new place as well.
    have hnext : slots'.next = max slots.next (n + l.slots) := by
      rw [← (Slots.bind_ok_iff.1 hbind).2]
      rfl
    have hwidth : 1 ≤ l.slots := Nat.le_max_right _ _
    refine Slots.forall_of_bind hbind ⟨n, by omega, rfl⟩ fun l₁ x hx => ?_
    obtain ⟨n₁, hlt, rfl⟩ := h.slot l₁ x hx
    exact ⟨n₁, by omega, rfl⟩
  · -- Two locals are compared: `hiff` is about the one that is bound and another one.
    rw [hbinding] at h₁ h₂
    by_cases hl₁ : l₁ = l <;> by_cases hl₂ : l₂ = l
    · rw [if_pos hl₁] at h₁
      rw [if_pos hl₂] at h₂
      cases h₁
      cases h₂
      simp [hl₁, hl₂]
    · rw [if_pos hl₁] at h₁
      rw [if_neg hl₂] at h₂
      cases h₁
      rw [hl₁, hhome l₂ hl₂]
      exact hiff l₂ n₂ hl₂ h₂
    · rw [if_neg hl₁] at h₁
      rw [if_pos hl₂] at h₂
      cases h₂
      rw [hl₂, hhome l₁ hl₁, eq_comm, hiff l₁ n₁ hl₁ h₁, eq_comm]
    · rw [if_neg hl₁] at h₁
      rw [if_neg hl₂] at h₂
      rw [hhome l₁ hl₁, hhome l₂ hl₂]
      exact h.iff l₁ l₂ n₁ n₂ h₁ h₂
  · -- A local that is still without a slot is not the one that is bound.
    have hne : l₁ ≠ l := by
      rintro rfl
      simp [hbinding] at hl₁
    rw [hbinding, if_neg hne] at hl₁
    obtain ⟨hself, hothers⟩ := h.free l₁ hl₁
    refine ⟨(hhome l₁ hne).trans hself, fun l₂ hl₂ => ?_⟩
    by_cases heq : l₂ = l
    · subst heq
      exact hfree l₁ hne hl₁
    · rw [hbinding, if_neg heq] at hl₂
      rw [hhome l₂ heq]
      exact hothers l₂ hl₂

/-- A local that is looked up has a slot from then on, and the others are where they were. -/
theorem resolve (h : Aliased home slots) (hl : l.Word) (hr : slots.resolve l = .ok (x, slots')) :
    Aliased home slots' ∧ (∃ n, x = .slot n ∧ slots'.binding? l = some (.slot n)) ∧
      ∀ l' ≠ l, slots'.binding? l' = slots.binding? l' := by
  rcases Slots.resolve_ok_iff.1 hr with ⟨hx, rfl⟩ | ⟨hnone, rfl, hbind⟩
  · obtain ⟨n, -, rfl⟩ := h.slot l x hx
    exact ⟨h, ⟨n, rfl, hx⟩, fun _ _ => rfl⟩
  · -- It gets a slot that no other local has.
    have hfresh : slots.fresh l = .slot slots.next := by
      rcases hl.role with hrole | hrole <;> simp [Slots.fresh, hrole]
    rw [hfresh] at hbind ⊢
    obtain ⟨hself, hothers⟩ := h.free l hnone
    refine ⟨h.bind hbind (fun _ _ => rfl) (fun l' n' _ hn' => ?_) fun l' hne _ => ?_,
      ⟨_, rfl, by rw [Slots.binding?_bind hbind, if_pos rfl]⟩,
      fun l' hne => by rw [Slots.binding?_bind hbind, if_neg hne]⟩
    · obtain ⟨_, hlt, heq⟩ := h.slot l' _ hn'
      cases heq
      have hhome := hothers l' (by rw [hn']; rfl)
      rw [hself]
      exact ⟨fun heq => absurd heq (Nat.ne_of_gt hlt), fun heq => absurd heq.symm hhome⟩
    · rw [hself]
      exact hne.symm

/-- A local is moved to the slot of another one. -/
theorem rebind (h : Aliased home slots) (hsource : slots.binding? source = some (.slot n))
    (hbind : slots.bind l (.slot n) = .ok slots') :
    Aliased (Function.update home l (home source)) slots' := by
  refine h.bind hbind (fun l' hne => Function.update_of_ne hne _ _) (fun l' n' hne hn' => ?_)
    fun l' hne hnone => ?_
  · rw [Function.update_self]
    exact h.iff source l' n n' hsource hn'
  · rw [Function.update_self]
    exact (h.free l' hnone).2 source (by rw [hsource]; rfl)

end Aliased

end Aliased

section Filled

/-- The locals are in the slots of their variables, which have what is in these. -/
structure Filled (a : Aliases) (slots : Slots) (f : Frame) : Prop where
  /-- Locals are in one slot iff they are names for one variable. -/
  aliased : Aliased a.home slots
  /-- The slot of a local has what is in its variable. -/
  holds : ∀ l n, slots.binding? l = some (.slot n) → f.Holds n (.int (a.read l))

/-- A local with a slot is found there. -/
theorem place_eq (h : place l p = .ok (x, p')) (hl : p.slots.binding? l = some (.slot n)) :
    x = .slot n ∧ p' = p := by
  obtain ⟨slots, hresolve, rfl⟩ := place_run_iff.1 h
  rcases Slots.resolve_ok_iff.1 hresolve with ⟨hx, rfl⟩ | ⟨hnone, -, -⟩
  · exact ⟨Option.some.inj (hx.symm.trans hl), rfl⟩
  · rw [hnone] at hl
    cases hl

/-- The code that loads a local pushes what is in its slot. -/
theorem exec_loadWord (stack : List Value) (hl : l.Word) (hn : p.slots.binding? l = some (.slot n))
    (hv : f.Holds n (.int v)) (h : loadLocal l p = .ok (code, p')) :
    p' = p ∧ exec code ⟨stack, f⟩ = .done ⟨.int v :: stack, f⟩ := by
  obtain ⟨x, hplace, hcode⟩ := loadLocal_run_iff.1 h
  obtain ⟨rfl, rfl⟩ := place_eq hplace hn
  rw [hl.ty] at hcode
  obtain ⟨⟨⟩, -⟩ | ⟨_, o, ⟨⟩, ho, rfl⟩ := moveCode_eq_ok_iff.1 hcode
  refine ⟨rfl, ?_⟩
  rw [exec_singleton]
  exact access_loadOp ho hv rfl

/-- The code that stores a local puts the value into its slot. -/
theorem exec_storeWord (h : Aliased a.home p.slots) (hl : l.Word) (v : Int32)
    (hholds : ∀ l' n', l' ≠ l → p.slots.binding? l' = some (.slot n') →
      f.Holds n' (.int (a.read l')))
    (hrun : storeLocal l p = .ok (code, p')) (exact : Bool) :
    ∃ f', exec code ⟨[.int v], f⟩ = .done ⟨[], f'⟩ ∧ Filled (a.store l v exact) p'.slots f' ∧
      (p'.slots.binding? l).isSome ∧ ∀ l' ≠ l, p'.slots.binding? l' = p.slots.binding? l' := by
  obtain ⟨x, hplace, hcode⟩ := storeLocal_run_iff.1 hrun
  obtain ⟨slots, hresolve, rfl⟩ := place_run_iff.1 hplace
  obtain ⟨haliased, ⟨n, rfl, hn⟩, hothers⟩ := h.resolve hl hresolve
  rw [hl.ty] at hcode
  obtain ⟨⟨⟩, -⟩ | ⟨_, o, ⟨⟩, ho, rfl⟩ := moveCode_eq_ok_iff.1 hcode
  refine ⟨f.set n (.int v), ?_, ⟨haliased, fun l' n' hn' => ?_⟩, by rw [hn]; rfl, hothers⟩
  · rw [exec_singleton]
    exact access_storeOp ho rfl
  · -- The names for the variable, and no others, are in the slot.
    by_cases hhome : a.home l' = a.home l
    · rw [Aliases.read_store_of_eq hhome, (haliased.iff l' l n' n hn' hn).2 hhome]
      exact Frame.holds_set
    · have hne : n' ≠ n := fun heq => hhome ((haliased.iff l' l n' n hn' hn).1 heq)
      have hl' : l' ≠ l := fun heq => hhome (congrArg a.home heq)
      rw [Aliases.read_store_of_ne hhome]
      rw [hothers l' hl'] at hn'
      refine Frame.holds_set_of_apart (hholds l' n' hl' hn') ?_
      simp only [Value.width]
      omega

namespace Filled

/-- A local is moved to the slot of another one, and is a name for its variable from then on. -/
theorem rebind (h : Filled a p.slots f) (hne : l ≠ source) (hrole : l.role = .handlerRef)
    (hsource : p.slots.binding? source = some (.slot n))
    (hrun : Lowering.rebind l (.slot n) p = .ok ((), p')) :
    Filled (a.copy l source) p'.slots f ∧ (p'.slots.binding? l).isSome ∧
      ∀ l' ≠ l, p'.slots.binding? l' = p.slots.binding? l' := by
  obtain ⟨slots, hbind, rfl⟩ := rebind_run_iff.1 hrun
  have hbinding : ∀ l', slots.binding? l' =
      if l' = l then some (.slot n) else p.slots.binding? l' :=
    fun l' => Slots.binding?_bind hbind
  have hcopy : a.copy l source =
      { a with
        home := Function.update a.home l (a.home source)
        current := Function.update a.current l (a.current source) } := by
    rw [Aliases.copy, if_neg hne, if_pos hrole]
  refine ⟨⟨?_, fun l' n' hn' => ?_⟩, by rw [hbinding, if_pos rfl]; rfl,
    fun l' hl' => by rw [hbinding, if_neg hl']⟩
  · rw [hcopy]
    exact h.aliased.rebind hsource hbind
  · -- The local that is moved has the value of the source, and the others have theirs.
    rw [hbinding] at hn'
    rw [hcopy]
    by_cases heq : l' = l
    · rw [if_pos heq] at hn'
      cases hn'
      simpa [Aliases.read, heq] using h.holds source n hsource
    · rw [if_neg heq] at hn'
      simpa [Aliases.read, Function.update_of_ne heq] using h.holds l' n' hn'

/-- A copy within a slot moves nothing. -/
theorem keep (h : Aliased a.home slots) (hne : l ≠ source) (hrole : l.role ≠ .handlerRef)
    (hholds : ∀ l' n', l' ≠ l → slots.binding? l' = some (.slot n') →
      f.Holds n' (.int (a.read l')))
    (hsource : slots.binding? source = some (.slot n)) (hl : slots.binding? l = some (.slot n)) :
    Filled (a.copy l source) slots f := by
  have hhome : a.home source = a.home l := (h.iff source l n n hsource hl).1 rfl
  have hcopy : a.copy l source =
      { a with current := Function.update a.current l (a.current source) } := by
    rw [Aliases.copy, if_neg hne, if_neg hrole, if_pos hhome]
  rw [hcopy]
  refine ⟨h, fun l' n' hn' => ?_⟩
  by_cases heq : l' = l
  · subst heq
    cases hl.symm.trans hn'
    have hvalue := hholds source n hne.symm hsource
    rw [Aliases.read, hhome] at hvalue
    exact hvalue
  · exact hholds l' n' heq hn'

/-- The code that copies a local with a slot. -/
theorem copyLocal (h : Filled a p.slots f) (hl : l.Word) (hword : source.Word)
    (hbound : (p.slots.binding? source).isSome)
    (hrun : Lowering.copyLocal l source p = .ok (code, p')) :
    ∃ f', exec code ⟨[], f⟩ = .done ⟨[], f'⟩ ∧ Filled (a.copy l source) p'.slots f' ∧
      (p'.slots.binding? l).isSome ∧ ∀ l' ≠ l, p'.slots.binding? l' = p.slots.binding? l' := by
  obtain ⟨n, hn⟩ := h.aliased.isSome hbound
  rcases copyLocal_run_iff.1 hrun with ⟨rfl, rfl, rfl⟩ | ⟨hne, origin, q, horigin, hparts⟩
  · -- A local is copied to itself.
    rw [Aliases.copy, if_pos rfl]
    exact ⟨f, rfl, h, hbound, fun _ _ => rfl⟩
  obtain ⟨rfl, rfl⟩ := place_eq horigin hn
  rcases hparts with ⟨hrole, rfl, hmove⟩ | ⟨hrole, destination, q, hdestination, hparts⟩
  · -- A name for an exception is moved, and nothing is done at run time.
    exact ⟨f, rfl, h.rebind hne hrole hn hmove⟩
  obtain ⟨slots, hresolve, rfl⟩ := place_run_iff.1 hdestination
  obtain ⟨haliased, ⟨n', rfl, hn'⟩, hothers⟩ := h.aliased.resolve hl hresolve
  have hsource : slots.binding? source = some (.slot n) := by rw [hothers source hne.symm, hn]
  -- The other locals have their values also if the slot is a new one.
  have hholds : ∀ l' n', l' ≠ l → slots.binding? l' = some (.slot n') →
      f.Holds n' (.int (a.read l')) := by
    intro l' n' hl' hn'
    rw [hothers l' hl'] at hn'
    exact h.holds l' n' hn'
  rcases hparts with ⟨-, heq, rfl, rfl⟩ | ⟨hapart, load, q, store, hload, hstore, rfl⟩
  · cases heq
    exact ⟨f, rfl, keep haliased hne hrole hholds hsource hn', by rw [hn']; rfl, hothers⟩
  · -- The value is loaded and stored, because the slots are different.
    have hhome : a.home source ≠ a.home l := by
      intro heq
      obtain rfl := (haliased.iff source l n n' hsource hn').2 heq
      rcases hapart with hstack | hapart
      · cases hstack
      · exact hapart rfl
    have hcopy : a.copy l source = a.store l (a.read source) (a.current source) := by
      rw [Aliases.copy, if_neg hne, if_neg hrole, if_neg hhome]
    obtain ⟨rfl, hexec⟩ := exec_loadWord [] hword hsource
      (hholds source n hne.symm hsource) hload
    obtain ⟨f', hexec', hfilled, hsome, hkeep⟩ :=
      exec_storeWord haliased hl (a.read source) hholds hstore (a.current source)
    rw [hcopy]
    refine ⟨f', ?_, hfilled, hsome, fun l' hl' => (hkeep l' hl').trans (hothers l' hl')⟩
    rw [exec_append, hexec, Outcome.done_bind, hexec']

/-- The code of a statement that reads locals with slots only. -/
theorem step (h : Filled a p.slots f) {k : StmtKind} (hk : k.Moves)
    (hbound : ∀ l ∈ k.uses, (p.slots.binding? l).isSome)
    (hrun : lowerStmt c k p = .ok (code, p')) :
    ∃ f', exec code ⟨[], f⟩ = .done ⟨[], f'⟩ ∧ Filled (a.step k) p'.slots f' ∧
      ∀ l, k.def? = some l → (p'.slots.binding? l).isSome ∧
        ∀ l' ≠ l, p'.slots.binding? l' = p.slots.binding? l' := by
  unfold StmtKind.Moves at hk
  split at hk
  · rename_i l v
    obtain ⟨value, q, store, hvalue, hstore, rfl⟩ := assignValue_run_iff.1 hrun
    obtain ⟨i, hi, rfl, rfl⟩ := loadConst_run_iff.1 hvalue
    cases hi
    obtain ⟨f', hexec, hfilled, hsome⟩ :=
      exec_storeWord h.aliased hk v (fun l' n' _ => h.holds l' n') hstore true
    refine ⟨f', ?_, hfilled, ?_⟩
    · rw [exec_append, exec_singleton, perform_intCode, Outcome.done_bind]
      exact hexec
    · rintro _ ⟨⟩
      exact hsome
  · rename_i l source
    obtain ⟨hl, hsource⟩ := hk
    have hmem : source ∈ (StmtKind.assign (.var l) (.operand (.var source))).uses := by
      simp [StmtKind.uses, Place.uses, Expr.uses, Ir.localsOf, Operand.local?]
    obtain ⟨f', hexec, hfilled, hsome⟩ := h.copyLocal hl hsource (hbound source hmem) hrun
    refine ⟨f', hexec, hfilled, ?_⟩
    rintro _ ⟨⟩
    exact hsome
  · cases hk

end Filled

end Filled

section Runs

variable {m : Method} {b : Body} {start : Slots} {front stmts back : List Stmt} {s : Stmt}
  {items : List (List Insn)}

/-- Control goes on behind a statement that assigns or copies, and it is no identity statement. -/
theorem endsBlock_of_moves {k : StmtKind} (h : k.Moves) :
    k.endsBlock = false ∧ k.isIdentity = false := by
  cases k <;> first | exact ⟨rfl, rfl⟩ | cases h

/-- The slots and what is in them behind some statements. -/
structure Tracks (front : List Stmt) (slots : Slots) (f : Frame) : Prop where
  /-- The slots of the locals have what is in their variables. -/
  filled : Filled (Aliases.after front) slots f
  /-- What was assigned has a slot. -/
  bound : ∀ s ∈ front, ∀ l, s.kind.def? = some l → (slots.binding? l).isSome

namespace Tracks

/-- Without identity statements no local has a slot at the start. -/
theorem nil (hb : ∀ s ∈ b.stmts, s.kind.isIdentity = false)
    (h : Slots.ofMethod m b = .ok start) : Tracks [] start f := by
  -- Only what a method is entered with has a slot before its code.
  have hnone : ∀ l, start.binding? l = none := by
    obtain ⟨⟨params, behind⟩, -, h⟩ := bind_eq_ok_iff.1 h
    refine foldlM_induct (P := fun slots => ∀ l, slots.binding? l = none) h (fun _ => rfl) ?_
    intro x hx slots slots' hslots hseed
    rcases Slots.seed_ok hseed with rfl | ⟨l, source, -, hkind, -⟩
    · exact hslots
    · have hidentity := hb x hx
      rw [hkind] at hidentity
      cases hidentity
  refine ⟨⟨Aliased.start hnone, fun l n hn => ?_⟩, List.forall_mem_nil _⟩
  rw [hnone l] at hn
  cases hn

/-- The code of one more statement, which reads only what was assigned. -/
theorem step (h : Tracks front p.slots f) (hs : s.kind.Moves)
    (hfirst : AssignsFirst (front ++ s :: back)) (hrun : lowerStmt c s.kind p = .ok (code, p')) :
    ∃ f', exec code ⟨[], f⟩ = .done ⟨[], f'⟩ ∧ Tracks (front ++ [s]) p'.slots f' := by
  have huses : ∀ l ∈ s.kind.uses, (p.slots.binding? l).isSome := by
    intro l hl
    obtain ⟨x, hx, hdef⟩ := hfirst.exists_def hl
    exact h.bound x hx l hdef
  obtain ⟨f', hexec, hfilled, hdef⟩ := h.filled.step hs huses hrun
  refine ⟨f', hexec, Aliases.after_concat front s ▸ hfilled, fun x hx l hl => ?_⟩
  rcases List.mem_append.1 hx with hx | hx
  · -- What had a slot still has one.
    obtain ⟨target, htarget⟩ := hs.exists_def
    obtain ⟨hsome, hkeep⟩ := hdef target htarget
    by_cases heq : l = target
    · rw [heq]
      exact hsome
    · rw [hkeep l heq]
      exact h.bound x hx l hl
  · obtain rfl := List.mem_singleton.1 hx
    exact (hdef l hl).1

/-- The code of some more statements. -/
theorem run (h : Tracks front p.slots f) (hitems : Items c p stmts items p')
    (hmoves : ∀ s ∈ stmts, s.kind.Moves) (hfirst : AssignsFirst (front ++ (stmts ++ back))) :
    ∃ f', exec items.flatten ⟨[], f⟩ = .done ⟨[], f'⟩ ∧
      Tracks (front ++ stmts) p'.slots f' := by
  induction hitems generalizing front f with
  | nil => exact ⟨f, rfl, by rwa [List.append_nil]⟩
  | @cons _ _ _ s stmts marks code _ hmarks hcode _ ih =>
    obtain ⟨hs, hmoves⟩ := List.forall_mem_cons.1 hmoves
    obtain ⟨f', hexec, htracks⟩ := h.step hs hfirst hcode
    obtain ⟨f'', hexec', htracks'⟩ := ih htracks hmoves (by simpa using hfirst)
    refine ⟨f'', ?_, by simpa using htracks'⟩
    rw [List.flatten_cons, exec_append, exec_append, exec_of_isMark hmarks, Outcome.done_bind,
      hexec, Outcome.done_bind, hexec']

/-- The code that returns a local leaves the method with what is in its variable. -/
theorem exec_return (h : Tracks front p.slots f) (hl : l.Word) (hret : m.ret.category = .int)
    (hbound : (p.slots.binding? l).isSome)
    (hrun : lowerReturn m (some (.var l)) p = .ok (code, p')) :
    exec code ⟨[], f⟩ = .ends (.returned (some (.int ((Aliases.after front).read l)))) := by
  obtain ⟨n, hn⟩ := h.filled.aliased.isSome hbound
  obtain ⟨value, -, hvalue, rfl⟩ := lowerReturn_run_iff.1 hrun
  obtain ⟨-, hexec⟩ := exec_loadWord [] hl hn (h.filled.holds l n hn) hvalue
  rw [exec_append, hexec, Outcome.done_bind, exec_singleton, hret]
  rfl

end Tracks

/-- Control goes from one of these statements to the next one. -/
theorem unbranched_of_copies (h : b.Copies m front l) : Unbranched b.stmts := by
  obtain ⟨id, line, hstmts⟩ := h.stmts
  have hinner : ∀ s ∈ front, s.kind.endsBlock = false :=
    fun s hs => (endsBlock_of_moves (h.moves s hs)).1
  refine ⟨fun s hs => ?_, fun s hs => ?_⟩
  · rw [hstmts] at hs
    rcases List.mem_append.1 hs with hs | hs
    · exact (StmtKind.straight_of_not_endsBlock (hinner s hs)).2
    · rw [List.mem_singleton.1 hs]
      rfl
  · rw [hstmts, List.dropLast_concat] at hs
    exact hinner s hs

/-- The code of such a body leaves the method with what is in the variable of the local that is
returned. -/
theorem exec_of_copies (h : b.Copies m front l) (hfirst : AssignsFirst b.stmts)
    (hstart : Slots.ofMethod m b = .ok start) {layout : Layout} {labels : Labels}
    (hitems : Items ⟨m, b, layout, labels⟩ ⟨start, []⟩ b.stmts items p') (f : Frame) :
    exec items.flatten ⟨[], f⟩ =
      .ends (.returned (some (.int ((Aliases.after front).read l)))) := by
  obtain ⟨id, line, hstmts⟩ := h.stmts
  have hnone : ∀ s ∈ b.stmts, s.kind.isIdentity = false := by
    intro s hs
    rw [hstmts] at hs
    rcases List.mem_append.1 hs with hs | hs
    · exact (endsBlock_of_moves (h.moves s hs)).2
    · rw [List.mem_singleton.1 hs]
      rfl
  rw [hstmts] at hitems hfirst
  obtain ⟨before, rest, p, rfl, hbefore, hrest⟩ := hitems.exists_split
  rcases hrest with _ | @⟨_, _, _, _, _, marks, code, _, hmarks, hreturn, ⟨⟩⟩
  have htracks : Tracks [] start f := .nil hnone hstart
  obtain ⟨f', hexec, htracks⟩ := htracks.run hbefore h.moves hfirst
  -- The statements in front of the return have assigned the local.
  obtain ⟨x, hx, hdef⟩ := hfirst.exists_def (mem_localsOf.2 (List.mem_singleton_self _))
  rw [List.flatten_append, List.flatten_singleton, exec_append, hexec, Outcome.done_bind,
    exec_append, exec_of_isMark hmarks, Outcome.done_bind]
  exact htracks.exec_return h.word h.ret (htracks.bound x hx l hdef) hreturn

/-- A method that assigns constants and copies locals returns what is in the variable of the local
that it returns. That is what its statements return if the local is current. -/
theorem copies_of_lowerMethod {locals : List Local} {traps : List Trap} {owner : ClassName}
    {options : Options} {argSlots : Nat} {r : LoweredMethod}
    (hb : Body.ofStmts locals stmts traps = .ok b) (hm : m.body = some b)
    (hcopies : b.Copies m front l) (hfirst : AssignsFirst b.stmts)
    (h : lowerMethod owner m options argSlots = .ok r) (f : Frame) :
    Halts (Machine.step r.code.insns) ⟨0, ⟨[], f⟩⟩
        (.returned (some (.int ((Aliases.after front).read l)))) ∧
      ((Aliases.after front).current l → ∀ (args : Nat → Value) (e : Ending),
        Halts (b.step args) Ir.State.start e ↔
          Halts (Machine.step r.code.insns) ⟨0, ⟨[], f⟩⟩ e) := by
  obtain ⟨layout, codes, start, pending, hstart, he, -, hinsns, -⟩ :=
    Emission.of_lowerMethod hb hm h
  obtain ⟨items, hitems, hflatten, -⟩ := he.exists_items
  have hdrop : r.code.insns.drop 0 =
      items.flatten ++ (layout.labels.stop.map Insn.label).toList := by
    rw [List.drop_zero, hinsns, hflatten]
  have hcode := sequential_of_items hitems (unbranched_of_copies hcopies)
  -- The code has no branches: it is run from its first instruction to its last one.
  have hreturns : Halts (Machine.step r.code.insns) ⟨0, ⟨[], f⟩⟩
      (.returned (some (.int ((Aliases.after front).read l)))) := by
    refine ⟨items.flatten.length, ?_⟩
    rw [run_code hcode.targets hdrop, exec_of_copies hcopies hfirst hstart hitems]
    rfl
  refine ⟨hreturns, fun hl args e => ?_⟩
  -- Both runs end in one way only, which is the same one.
  have hstmts := hcopies.halts hl args
  constructor
  · intro he
    exact he.unique hstmts ▸ hreturns
  · intro he
    exact he.unique hreturns ▸ hstmts

end Runs

section Relay

/-- A variable of the program. -/
def relayVariable (name : String) : Local := ⟨name, .prim .int, .ordinary⟩

/-- A name for a caught exception. -/
def relayName : Local := ⟨"h", .prim .int, .handlerRef⟩

/-- The statements of `relay` in front of the return. The name is one for the first variable until
it is copied from the second one. -/
def relayFront : List Stmt :=
  [⟨⟨0⟩, none, .assign (.var (relayVariable "x")) (.operand (.const (.int 7)))⟩,
    ⟨⟨1⟩, none, .assign (.var relayName) (.operand (.var (relayVariable "x")))⟩,
    ⟨⟨2⟩, none, .assign (.var (relayVariable "y")) (.operand (.var relayName))⟩,
    ⟨⟨3⟩, none, .assign (.var (relayVariable "x")) (.operand (.var relayName))⟩,
    ⟨⟨4⟩, none, .assign (.var (relayVariable "x")) (.operand (.const (.int 3)))⟩,
    ⟨⟨5⟩, none, .assign (.var relayName) (.operand (.var (relayVariable "y")))⟩]

/-- The statements of `relay`. -/
def relayStmts : List Stmt :=
  relayFront ++ [⟨⟨6⟩, none, .return (.var relayName)⟩]

/-- The body of `relay`. -/
def relayBody : Body where
  locals := []
  stmts := relayStmts
  flow := ⟨[⟨⟨0⟩, [⟨0⟩, ⟨1⟩, ⟨2⟩, ⟨3⟩, ⟨4⟩, ⟨5⟩, ⟨6⟩], [], []⟩]⟩

/-- A method that copies a value from one variable to another by a name for both. -/
def relay : Method :=
  ⟨"relay", [.static], [], .prim .int, [], some relayBody, none⟩

/-- The code of `relay`. -/
def relayCode : LoweredMethod where
  code :=
    { insns := [.int .bipush 7, .var .istore 0, .var .iload 0, .var .istore 1, .simple .iconst3,
        .var .istore 0, .var .iload 1, .simple .ireturn]
      guards := []
      sizes := ⟨1, 2⟩ }
  slots :=
    { bindings := [(relayName, .slot 1), (relayVariable "y", .slot 1),
        (relayVariable "x", .slot 0)]
      next := 2
      declared := [relayVariable "y", relayName, relayVariable "x"] }
  labels := 0
  traps := 0

/-- The locals of `relay` hold 32-bit integers. -/
theorem word_relay : (∀ name, (relayVariable name).Word) ∧ relayName.Word :=
  ⟨fun _ => ⟨rfl, .inl rfl⟩, ⟨rfl, .inr rfl⟩⟩

/-- The body of `relay` assigns and copies. -/
theorem copies_relayBody : relayBody.Copies relay relayFront relayName where
  stmts := ⟨_, _, rfl⟩
  moves := by
    obtain ⟨hvariable, hname⟩ := word_relay
    intro s hs
    simp only [relayFront, List.mem_cons, List.not_mem_nil, or_false] at hs
    rcases hs with rfl | rfl | rfl | rfl | rfl | rfl
    · exact hvariable _
    · exact ⟨hname, hvariable _⟩
    · exact ⟨hvariable _, hname⟩
    · exact ⟨hvariable _, hname⟩
    · exact hvariable _
    · exact ⟨hname, hvariable _⟩
  word := word_relay.2
  ret := rfl

/-- `copies_of_lowerMethod` at a method whose name for an exception is moved twice: its code returns
what its statements do. -/
theorem relay_copied :
    lowerMethod ⟨"A"⟩ relay {} 0 = .ok relayCode ∧ (Aliases.after relayFront).current relayName ∧
      Halts (Machine.step relayCode.code.insns) ⟨0, ⟨[], fun _ => 0⟩⟩
        (.returned (some (.int 7))) := by
  have hb : Body.ofStmts [] relayStmts [] = .ok relayBody := by cbv
  have h : lowerMethod ⟨"A"⟩ relay {} 0 = .ok relayCode := by cbv
  have hfirst : AssignsFirst relayBody.stmts := by decide
  have hcurrent : (Aliases.after relayFront).current relayName := by decide
  have hstmts : Halts (relayBody.step fun _ => .int 0) Ir.State.start
      (.returned (some (.int 7))) := ⟨7, rfl⟩
  have hcopied := copies_of_lowerMethod hb rfl copies_relayBody hfirst h fun _ => 0
  exact ⟨h, hcurrent, (hcopied.2 hcurrent _ _).1 hstmts⟩

end Relay

section Overwritten

/-- Whether the code of methods that assign constants and copy locals returns what their statements
do, if they return a local of the given kind. -/
def ReturnsWhere (P : Local → Prop) : Prop :=
  ∀ (m : Method) (b : Body) (front : List Stmt) (l : Local) (locals : List Local)
    (stmts : List Stmt) (traps : List Trap) (owner : ClassName) (options : Options)
    (argSlots : Nat) (r : LoweredMethod), Body.ofStmts locals stmts traps = .ok b →
      m.body = some b → m.isStatic → b.Copies m front l → AssignsFirst b.stmts → P l →
      lowerMethod owner m options argSlots = .ok r →
      ∀ (f : Frame) (args : Nat → Value) (e : Ending),
        Halts (b.step args) Ir.State.start e ↔ Halts (Machine.step r.code.insns) ⟨0, ⟨[], f⟩⟩ e

/-- The statements of `overwrite` in front of the return. Of two names for one variable, one is
assigned again. -/
def overwriteFront (target : Local) : List Stmt :=
  [⟨⟨0⟩, none, .assign (.var (relayVariable "x")) (.operand (.const (.int 1)))⟩,
    ⟨⟨1⟩, none, .assign (.var relayName) (.operand (.var (relayVariable "x")))⟩,
    ⟨⟨2⟩, none, .assign (.var target) (.operand (.const (.int 2)))⟩]

/-- The statements of `overwrite`. -/
def overwriteStmts (target result : Local) : List Stmt :=
  overwriteFront target ++ [⟨⟨3⟩, none, .return (.var result)⟩]

/-- The body of `overwrite`. -/
def overwriteBody (target result : Local) : Body where
  locals := []
  stmts := overwriteStmts target result
  flow := ⟨[⟨⟨0⟩, [⟨0⟩, ⟨1⟩, ⟨2⟩, ⟨3⟩], [], []⟩]⟩

/-- A method that assigns one of two names for a variable and returns another one. -/
def overwrite (target result : Local) : Method :=
  ⟨"overwrite", [.static], [], .prim .int, [], some (overwriteBody target result), none⟩

/-- The code of `overwrite`. There is one slot for both names. -/
def overwriteCode : LoweredMethod where
  code :=
    { insns := [.simple .iconst1, .var .istore 0, .simple .iconst2, .var .istore 0, .var .iload 0,
        .simple .ireturn]
      guards := []
      sizes := ⟨1, 1⟩ }
  slots :=
    { bindings := [(relayName, .slot 0), (relayVariable "x", .slot 0)]
      next := 1
      declared := [relayName, relayVariable "x"] }
  labels := 0
  traps := 0

/-- Where the statements of `overwrite` return what was assigned first, its code does not. -/
theorem not_returnsWhere_of_overwrite {P : Local → Prop} {target result : Local}
    (htarget : target.Word) (hresult : result.Word) (hP : P result)
    (hb : Body.ofStmts [] (overwriteStmts target result) [] = .ok (overwriteBody target result))
    (hfirst : AssignsFirst (overwriteStmts target result))
    (hstmts : Halts ((overwriteBody target result).step fun _ => .int 0) Ir.State.start
      (.returned (some (.int 1))))
    (h : lowerMethod ⟨"A"⟩ (overwrite target result) {} 0 = .ok overwriteCode) :
    ¬ReturnsWhere P := by
  intro hall
  have hcopies : (overwriteBody target result).Copies (overwrite target result)
      (overwriteFront target) result := by
    refine ⟨⟨_, _, rfl⟩, fun s hs => ?_, hresult, rfl⟩
    obtain ⟨hvariable, hname⟩ := word_relay
    simp only [overwriteFront, List.mem_cons, List.not_mem_nil, or_false] at hs
    rcases hs with rfl | rfl | rfl
    · exact hvariable _
    · exact ⟨hname, hvariable _⟩
    · exact htarget
  have hsame := hall _ _ _ _ _ _ _ _ _ _ _ hb rfl rfl hcopies hfirst hP h (fun _ => 0)
    (fun _ => .int 0) (.returned (some (.int 1)))
  -- The code stores the other value into the slot of both.
  have hcode : Halts (Machine.step overwriteCode.code.insns) ⟨0, ⟨[], fun _ => 0⟩⟩
      (.returned (some (.int 2))) := ⟨6, rfl⟩
  exact absurd (hcode.unique (hsame.1 hstmts)) (by decide)

/-- The code need not return what the statements do, whether a variable of the program is returned
or a name for an exception: the statements of `overwrite` return what was assigned first, but its
code returns what was assigned to the other name. -/
theorem not_copied_of_overwritten :
    ¬ReturnsWhere (fun _ => True) ∧ ¬ReturnsWhere (fun l => l.role = .ordinary) ∧
      ¬ReturnsWhere (fun l => l.role = .handlerRef) := by
  obtain ⟨hvariable, hname⟩ := word_relay
  have hreturnName : ∀ {P : Local → Prop}, P relayName → ¬ReturnsWhere P := by
    intro P hP
    apply not_returnsWhere_of_overwrite (hvariable "x") hname hP
    · cbv
    · decide
    · exact ⟨4, rfl⟩
    · cbv
  have hreturnVariable : ¬ReturnsWhere fun l => l.role = .ordinary := by
    refine not_returnsWhere_of_overwrite hname (hvariable "x") ?_ ?_ ?_ ?_ ?_
    · rfl
    · cbv
    · decide
    · exact ⟨4, rfl⟩
    · cbv
  exact ⟨hreturnName trivial, hreturnVariable, hreturnName rfl⟩

end Overwritten

end BytecodeLowering.Lowering
