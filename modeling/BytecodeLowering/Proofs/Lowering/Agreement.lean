import BytecodeLowering.Proofs.Lowering.Compute
import BytecodeLowering.Proofs.Lowering.Items

/-!
# Values in their slots

What the local variables have to do with the locals of a method over integers.

* `Fits`, `Carries`: the arguments of a static method, and the local variables that they come in.
* `Allocated`, `Compiled`: the code of a method over integers, with its variables in slots of their
  own, and that of a method without stack temporaries.
* `Agreement`: the local variables hold the values of the locals, and the arguments of the
  parameters that are still to be bound.
* `Agreement.pass`, `Agreement.put`, `Agreement.keep`, `Agreement.copy`: what statements do keeps
  the agreement.
-/

namespace BytecodeLowering.Lowering

open Ir Machine

/-- The arguments of integral parameters have their categories. -/
def Fits (ts : List Ty) (args : Nat → Value) : Prop :=
  ∀ (index : Nat) (t : Ty), ts[index]? = some t → t.IsIntegral → (args index).category = t.category

/-- The local variables at the start of a static method: the arguments of integral parameters are
where they are passed, and the local variables behind the arguments are zero. -/
structure Carries (f : Frame) (ts : List Ty) (args : Nat → Value) : Prop where
  /-- An argument has the category of its parameter. -/
  category : Fits ts args
  /-- It is where it is passed. -/
  holds : ∀ (index : Nat) (t : Ty), ts[index]? = some t → t.IsIntegral →
    f.Holds (argumentPlace ts index) (args index)
  /-- The other local variables are zero. -/
  zero : ∀ n, argumentPlace ts ts.length ≤ n → f n = 0

/-- The local variables at the start of a method with one parameter. -/
theorem Carries.single {f : Frame} {t : Ty} {v : Value} (hv : v.category = t.category)
    (hholds : f.Holds 0 v) (hzero : ∀ n, t.width ≤ n → f n = 0) :
    Carries f [t] fun _ => v where
  category
    | 0, t', ht, _ => by
      cases ht
      exact hv
  holds
    | 0, _, _, _ => hholds
  zero n hn := hzero n (by simpa [argumentPlace] using hn)

/-- The code of a method over integers, with its variables in slots of their own. -/
structure Allocated (c : MethodContext) (insns : List Insn) (items : List (List Insn))
    (start final : Slots) : Prop where
  /-- The code is that of the statements. -/
  listing : Listing Local.Numeric c insns items start final
  /-- The locals are variables or stack temporaries of integral types. -/
  numeric : ∀ s ∈ c.body.stmts, ∀ l, s.kind.Mentions l → l.Numeric
  /-- Parameters are bound first. -/
  parameters : c.body.Parameters c.method
  /-- The variables are in slots of their own. -/
  apart : Slots.Apart c.method c.body final
  /-- The slot of a parameter is where its argument is passed. -/
  param : ∀ index n, start.param? index = some n → n = argumentPlace c.method.params index
  /-- The parameters that locals are bound to exist. -/
  bound : ∀ j l index, c.body.Binds j l index → ∃ t, c.method.params[index]? = some t

/-- The code of a method that computes with integers in variables only. -/
structure Compiled (c : MethodContext) (insns : List Insn) (items : List (List Insn))
    (start final : Slots) : Prop extends Allocated c insns items start final where
  /-- The statements compute with integers. -/
  integral : c.body.Integral c.method
  /-- No branch leads to a statement that binds a parameter. -/
  once : c.body.BindsOnce

/-- The local variables hold the values of the locals that are read, but for those that are still to
be bound to parameters from the given statement on. For these they hold the arguments. -/
structure Agreement (c : MethodContext) (final : Slots) (args : Nat → Value) (j : Nat) (env : Env)
    (f : Frame) : Prop where
  /-- The values have the categories of the locals. -/
  typed : env.Typed
  /-- A local that is read and not bound from here on has its value where its slot is. -/
  value : ∀ l, c.body.usesLocal l → (∀ k index, j ≤ k → ¬c.body.Binds k l index) →
    final.Agrees f env l
  /-- An argument that a local is bound to from here on is where it was passed. -/
  argument : ∀ k l index, j ≤ k → c.body.Binds k l index →
    f.Holds (argumentPlace c.method.params index) (args index)

variable {c : MethodContext} {insns : List Insn} {items : List (List Insn)} {start final : Slots}
  {args : Nat → Value} {j k n index : Nat} {env : Env} {f : Frame} {l l' : Local} {v : Value}
  {s : Stmt}

/-- A local that is read has an integral type. -/
theorem Allocated.isIntegral_of_usesLocal (hc : Allocated c insns items start final)
    (hl : c.body.usesLocal l) : l.ty.IsIntegral := by
  obtain ⟨s, hs, hl⟩ := List.any_eq_true.1 hl
  exact (hc.numeric s hs l (.inl (by simpa using hl))).ty

/-- A value of the category of a local of an integral type is as wide as the local. -/
theorem width_eq_slots (hl : l.ty.IsIntegral) (hv : v.category = l.ty.category) :
    v.width = l.slots := by
  rw [Value.width_eq, hv, Slots.slots_eq hl]
  rfl

/-- Where a local is assigned a value, the other locals keep theirs. -/
theorem agrees_update {m : Method} {b : Body} (hfinal : Slots.Apart m b final) (henv : env.Typed)
    (hl : l.ty.IsIntegral) (hn : final.binding? l = some (.slot n))
    (hv : v.category = l.ty.category) (hl' : l'.ty.IsIntegral)
    (h : l' ≠ l → final.Agrees f env l') :
    final.Agrees (f.set n v) (Function.update env l v) l' := by
  intro n' hn'
  by_cases heq : l' = l
  · subst heq
    rw [hn] at hn'
    cases hn'
    rw [Function.update_self]
    exact Frame.holds_set
  · rw [Function.update_of_ne heq]
    refine Frame.holds_set_of_apart (h heq n' hn') ?_
    rw [width_eq_slots hl hv, width_eq_slots hl' (henv l' hl')]
    exact hfinal.disjoint l' l n' n heq hn' hn

namespace Agreement

/-- Places that nothing is bound behind have the same agreement. -/
theorem move (h : Agreement c final args j env f)
    (hj : ∀ i l index, j ≤ i → ¬c.body.Binds i l index)
    (hk : ∀ i l index, k ≤ i → ¬c.body.Binds i l index) : Agreement c final args k env f where
  typed := h.typed
  value l hl _ := h.value l hl fun i index hi => hj i l index hi
  argument i l index hi hb := absurd hb (hk i l index hi)

/-- The locals that a statement reads have their values, if it binds nothing. -/
theorem agrees (h : Agreement c final args j env f) (hc : Allocated c insns items start final)
    (hj : c.body.stmts[j]? = some s) (hs : s.kind.isIdentity = false) :
    ∀ l ∈ s.kind.uses, final.Agrees f env l :=
  fun l hl => h.value l (usesLocal_of_mem (List.mem_of_getElem? hj) hl) fun _ _ hi =>
    hc.parameters.not_binds_of_le hj hs hi

/-- A statement that binds nothing may leave everything as it is. -/
theorem pass (h : Agreement c final args j env f) (hc : Allocated c insns items start final)
    (hj : c.body.stmts[j]? = some s) (hs : s.kind.isIdentity = false) :
    Agreement c final args (j + 1) env f :=
  h.move (fun _ _ _ hi => hc.parameters.not_binds_of_le hj hs hi)
    fun _ _ _ hi => hc.parameters.not_binds_of_le hj hs (Nat.le_of_succ_le hi)

/-- A statement that binds nothing may assign a local. -/
theorem assign (h : Agreement c final args j env f) (hc : Allocated c insns items start final)
    (hj : c.body.stmts[j]? = some s) (hs : s.kind.isIdentity = false)
    (hl : l.ty.IsIntegral) (hn : final.binding? l = some (.slot n))
    (hv : v.category = l.ty.category) :
    Agreement c final args (j + 1) (Function.update env l v) (f.set n v) where
  typed := h.typed.update hv
  value l' hl' _ := agrees_update hc.apart h.typed hl hn hv (hc.isIntegral_of_usesLocal hl')
    fun _ => h.value l' hl' fun _ _ hi => hc.parameters.not_binds_of_le hj hs hi
  argument _ _ _ hi hb := absurd hb (hc.parameters.not_binds_of_le hj hs (Nat.le_of_succ_le hi))

/-- A statement that binds nothing may leave the value of a local on the operand stack. -/
theorem hold (h : Agreement c final args j env f) (hc : Allocated c insns items start final)
    (hj : c.body.stmts[j]? = some s) (hs : s.kind.isIdentity = false)
    (hstack : final.binding? l = some .stack) (hv : v.category = l.ty.category) :
    Agreement c final args (j + 1) (Function.update env l v) f where
  typed := h.typed.update hv
  value l' hl' hnot n hn := by
    have hne : l' ≠ l := by
      rintro rfl
      rw [hstack] at hn
      cases hn
    rw [Function.update_of_ne hne]
    exact (h.pass hc hj hs).value l' hl' hnot n hn
  argument := (h.pass hc hj hs).argument

/-- A statement that binds nothing may put a value where its local is. -/
theorem put (h : Agreement c final args j env f) (hc : Allocated c insns items start final)
    (hj : c.body.stmts[j]? = some s) (hs : s.kind.isIdentity = false) (hl : l.Numeric)
    {x : Binding} (hx : final.binding? l = some x) (hv : v.category = l.ty.category) :
    (x.put f v).stack = (temporaries [l]).map (Function.update env l v) ∧
      Agreement c final args (j + 1) (Function.update env l v) (x.put f v).frame := by
  have hrole := hc.apart.stack l x hx
  cases x with
  | slot n =>
    have hnot : l.role ≠ .stackTemp := fun hstack => by cases hrole.2 hstack
    exact ⟨by simp [Binding.put, temporaries, hnot], h.assign hc hj hs hl.ty hx hv⟩
  | stack =>
    have hstack := hrole.1 rfl
    exact ⟨by simp [Binding.put, temporaries, hstack], h.hold hc hj hs hx hv⟩

/-- A local that is not bound from the next statement on is not bound by this one, unless it is the
one that this one binds. -/
theorem not_binds (hb : c.body.Binds j l index) (hne : l' ≠ l)
    (h : ∀ i index, j + 1 ≤ i → ¬c.body.Binds i l' index) (i index' : Nat) (hi : j ≤ i) :
    ¬c.body.Binds i l' index' := by
  rcases Nat.eq_or_lt_of_le hi with rfl | hlt
  · exact fun hb' => hne (hb.unique hb').1
  · exact h i index' hlt

/-- A statement that binds a parameter does nothing for a local that is not read, or that is where
the argument was passed. -/
theorem keep (h : Agreement c final args j env f) (hb : c.body.Binds j l index)
    (hv : (args index).category = l.ty.category)
    (hplace : c.body.usesLocal l →
      final.binding? l = some (.slot (argumentPlace c.method.params index))) :
    Agreement c final args (j + 1) (Function.update env l (args index)) f where
  typed := h.typed.update hv
  value l' hl' hnot n hn := by
    by_cases heq : l' = l
    · subst heq
      rw [hplace hl'] at hn
      cases hn
      rw [Function.update_self]
      exact h.argument j l' index (Nat.le_refl j) hb
    · rw [Function.update_of_ne heq]
      exact h.value l' hl' (not_binds hb heq hnot) n hn
  argument i l' index' hi hb' := h.argument i l' index' (Nat.le_of_succ_le hi) hb'

/-- A statement that binds a parameter copies the argument to a local that is elsewhere. The
arguments that are still to be bound are not in its slots. -/
theorem copy (h : Agreement c final args j env f) (hc : Allocated c insns items start final)
    (hargs : Fits c.method.params args)
    (hb : c.body.Binds j l index) (hn : final.binding? l = some (.slot n)) :
    Agreement c final args (j + 1) (Function.update env l (args index)) (f.set n (args index)) := by
  -- A local is as wide as the parameter that it is bound to.
  have hwidth : ∀ {i l index}, c.body.Binds i l index → ∃ t,
      c.method.params[index]? = some t ∧ l.Integral ∧ l.ty = t ∧
        (args index).category = l.ty.category := by
    intro i l index hb
    obtain ⟨t, ht⟩ := hc.bound i l index hb
    obtain ⟨hl, hty⟩ := hc.parameters.ty_eq_of_binds hb ht
    exact ⟨t, ht, hl, hty, hty ▸ hargs index t ht (hty ▸ hl.ty)⟩
  obtain ⟨t, ht, hl, hty, hv⟩ := hwidth hb
  refine
    { typed := h.typed.update hv
      value := fun l' hl' hnot => agrees_update hc.apart h.typed hl.ty hn hv
        (hc.isIntegral_of_usesLocal hl') fun hne => h.value l' hl' (not_binds hb hne hnot)
      argument := fun i l' index' hi hb' => ?_ }
  -- The local is where an argument was passed that was bound earlier.
  rcases hc.apart.place l n hn with ⟨j₀, index₀, hb₀, hfirst, rfl⟩ | ⟨hnot, -⟩
  · have hne : index₀ ≠ index' := by
      rintro rfl
      have heq := hc.parameters.binds_inj hb₀ hb'
      have hle := hfirst j index hb
      omega
    obtain ⟨t₀, ht₀, -, hty₀, -⟩ := hwidth hb₀
    obtain ⟨t', ht', hl', hty', hv'⟩ := hwidth hb'
    refine Frame.holds_set_of_apart (h.argument i l' index' (Nat.le_of_succ_le hi) hb') ?_
    rw [width_eq_slots hl.ty hv, width_eq_slots hl'.ty hv', Slots.slots_eq hl.ty,
      Slots.slots_eq hl'.ty, hty₀, hty']
    rcases Nat.lt_or_gt_of_ne hne with hlt | hlt
    · exact .inr (argumentPlace_add_le ht₀ hlt)
    · exact .inl (argumentPlace_add_le ht' hlt)
  · exact absurd hb (hnot j index)

end Agreement

end BytecodeLowering.Lowering
