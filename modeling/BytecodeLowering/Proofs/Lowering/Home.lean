import BytecodeLowering.Proofs.Ir.Integral
import BytecodeLowering.Proofs.Lowering.Slots
import Mathlib.Algebra.GroupWithZero.Nat

/-!
# Slots of integral locals

The variables of a body that computes with integers have slots of their own, those of the parameters
in the first ones. Stack temporaries have none.

* `argumentPlace`: the local variable that an argument of a static method is passed in.
* `Slots.Seeded`, `Slots.seeded_of_ofMethod`: at the start of a method the locals that are bound to
  parameters, and no others, are where the arguments are passed.
* `Slots.Apart`, `Slots.Touches.apart`: no two locals share a slot, and locals that are not bound to
  parameters are behind the arguments.
-/

namespace BytecodeLowering.Lowering

open Ir

/-- The local variable that an argument of a static method starts in. -/
def argumentPlace (ts : List Ty) (index : Nat) : Nat :=
  ((ts.take index).map Ty.width).sum

section Arguments

variable {ts : List Ty} {i j : Nat} {t : Ty}

/-- An argument is passed behind the one in front of it. -/
theorem argumentPlace_succ (h : ts[i]? = some t) :
    argumentPlace ts (i + 1) = argumentPlace ts i + t.width := by
  simp [argumentPlace, List.take_add_one, h]

/-- Later arguments are passed further behind. -/
theorem argumentPlace_mono (h : i ≤ j) : argumentPlace ts i ≤ argumentPlace ts j := by
  obtain ⟨d, rfl⟩ := Nat.exists_eq_add_of_le h
  rw [argumentPlace, argumentPlace, List.take_add, List.map_append, List.sum_append]
  exact Nat.le_add_right _ _

/-- An argument is passed in front of the later ones. -/
theorem argumentPlace_add_le (h : ts[i]? = some t) (hlt : i < j) :
    argumentPlace ts i + t.width ≤ argumentPlace ts j :=
  argumentPlace_succ h ▸ argumentPlace_mono hlt

/-- The arguments are passed in front of the other locals. -/
theorem argumentPlace_add_le_length (h : ts[i]? = some t) :
    argumentPlace ts i + t.width ≤ argumentPlace ts ts.length :=
  argumentPlace_add_le h (List.getElem?_eq_some_iff.1 h).1

/-- The slots of the parameters are those that the arguments are passed in. -/
theorem paramSlots_eq_ok {owner : String} {slot : Nat} {slots : List Nat} {behind : Nat}
    (h : paramSlots owner slot ts = .ok (slots, behind)) :
    slots = (List.range ts.length).map (fun i => slot + argumentPlace ts i) ∧
      behind = slot + argumentPlace ts ts.length := by
  induction ts generalizing slot slots behind with
  | nil =>
    cases h
    exact ⟨rfl, rfl⟩
  | cons t ts ih =>
    obtain ⟨-, rest, hrest, rfl⟩ := paramSlots_cons_eq_ok_iff.1 h
    obtain ⟨rfl, rfl⟩ := ih hrest
    constructor
    · rw [List.length_cons, List.range_succ_eq_map, List.map_cons, List.map_map]
      congr 1
      refine List.map_congr_left fun i _ => ?_
      simp [argumentPlace, Nat.add_assoc]
    · simp [argumentPlace, Nat.add_assoc]

end Arguments

namespace Slots

variable {m : Method} {b : Body} {s s' start : Slots} {l l' : Local} {k n n' index : Nat}

/-- The bindings at the start of a method, for the statements in front of a place: each local that
one of them binds to a parameter is where the argument is passed that it is bound to first. -/
structure Seeded (m : Method) (b : Body) (k : Nat) (s : Slots) : Prop where
  /-- A local that has a place is bound to a parameter, first of all to the one passed there. -/
  place : ∀ l x, s.binding? l = some x → ∃ j index, b.Binds j l index ∧ j < k ∧
    (∀ j' index', b.Binds j' l index' → j ≤ j') ∧ x = .slot (argumentPlace m.params index)
  /-- A local that is bound to a parameter has a place. -/
  bound : ∀ j l index, b.Binds j l index → j < k → ∃ x, s.binding? l = some x
  /-- A parameter has the slot that its argument is passed in. -/
  param : ∀ index n, s.param? index = some n ↔
    index < m.params.length ∧ n = argumentPlace m.params index
  /-- The first slot behind the parameters is the one behind the arguments. -/
  first : s.first = argumentPlace m.params m.params.length
  /-- The slots that were taken reach behind the parameters. -/
  first_le : s.first ≤ s.next
  /-- The slots that were taken reach behind every local. -/
  slot_le : ∀ l n, s.binding? l = some (.slot n) → n + l.slots ≤ s.next

namespace Seeded

/-- No local has a place in front of the first statement. -/
theorem entry (m : Method) (b : Body) : Seeded m b 0
    { params := (List.range m.params.length).map fun i => 0 + argumentPlace m.params i
      next := 0 + argumentPlace m.params m.params.length
      first := 0 + argumentPlace m.params m.params.length
      declared := b.defs.reverse } where
  place := by simp [binding?]
  bound := by simp
  param index n := by
    by_cases hlt : index < m.params.length <;> simp [param?, hlt, eq_comm]
  first := Nat.zero_add _
  first_le := Nat.le_refl _
  slot_le := by simp [binding?]

/-- Nothing has to be done at a statement that binds no local, or one that has a place. -/
theorem keep (hs : Seeded m b k s)
    (hbound : ∀ l index, b.Binds k l index → ∃ x, s.binding? l = some x) :
    Seeded m b (k + 1) s := by
  refine { hs with place := fun l x hx => ?_, bound := fun j l index hb hj => ?_ }
  · obtain ⟨j, index, hb, hj, hfirst, rfl⟩ := hs.place l x hx
    exact ⟨j, index, hb, Nat.lt_succ_of_lt hj, hfirst, rfl⟩
  · rcases Nat.lt_succ_iff_lt_or_eq.1 hj with hj | rfl
    · exact hs.bound j l index hb hj
    · exact hbound l index hb

/-- A local without a place goes where the argument is passed that it is bound to. -/
theorem bind (hs : Seeded m b k s) (hb : b.Binds k l index) (hnone : s.binding? l = none)
    (hbind : s.bind l (.slot (argumentPlace m.params index)) = .ok s') :
    Seeded m b (k + 1) s' := by
  have hfirst : ∀ j' index', b.Binds j' l index' → k ≤ j' := by
    -- An earlier statement would have given the local a place.
    intro j' index' hb'
    by_contra hlt
    obtain ⟨x, hx⟩ := hs.bound j' l index' hb' (Nat.lt_of_not_le hlt)
    rw [hnone] at hx
    cases hx
  refine
    { place := ?_
      bound := fun j l' index' hb' hj => ?_
      param := by simp only [param?_bind hbind, hs.param, implies_true]
      first := (first_bind hbind).trans hs.first
      first_le := first_le_next_of_bind hbind hs.first_le
      slot_le := slot_le_next_of_bind hbind hs.slot_le }
  · refine forall_of_bind hbind ⟨k, index, hb, Nat.lt_succ_self k, hfirst, rfl⟩ ?_
    intro l' x hx
    obtain ⟨j, index', hb', hj, hfirst, rfl⟩ := hs.place l' x hx
    exact ⟨j, index', hb', Nat.lt_succ_of_lt hj, hfirst, rfl⟩
  · rcases Nat.lt_succ_iff_lt_or_eq.1 hj with hj | rfl
    · exact exists_binding?_bind hbind (hs.bound j l' index' hb' hj)
    · -- The statement at this place binds no other local.
      obtain ⟨rfl, -⟩ := hb.unique hb'
      exact ⟨_, by rw [binding?_bind hbind, if_pos rfl]⟩

/-- The next statement is treated by its kind. -/
theorem seed (hs : Seeded m b k s) (hb : b.Parameters m)
    (hparams : ∀ j l index, b.Binds j l index → index < m.params.length) {x : Stmt}
    (hx : b.stmts[k]? = some x) (h : Slots.seed m.isStatic s x = .ok s') :
    Seeded m b (k + 1) s' := by
  have hbound := hb.bound x (List.mem_of_getElem? hx)
  rcases seed_ok h with rfl | ⟨l, source, n, hkind, hnone, hhome, hbind⟩
  · refine hs.keep ?_
    rintro l index ⟨x', t, hx', hkind⟩
    obtain rfl := Option.some.inj (hx.symm.trans hx')
    have hlt := hparams k l index ⟨x, t, hx, hkind⟩
    obtain ⟨_, _, -, hl, -⟩ := hbound l _ hkind
    refine exists_binding?_of_seed h hkind (n := argumentPlace m.params index) ?_
    rw [home?, hl.role]
    exact (hs.param index _).2 ⟨hlt, rfl⟩
  · obtain ⟨index, t, rfl, hl, -⟩ := hbound l source hkind
    rw [home?, hl.role] at hhome
    rw [((hs.param index n).1 hhome).2] at hbind
    exact hs.bind ⟨x, t, hx, hkind⟩ hnone hbind

/-- The statements in front of a place are treated one after the other. -/
theorem foldlM (hs : Seeded m b 0 s) (hb : b.Parameters m)
    (hparams : ∀ j l index, b.Binds j l index → index < m.params.length) (k : Nat)
    (h : (b.stmts.take k).foldlM (Slots.seed m.isStatic) s = .ok s') : Seeded m b k s' := by
  induction k generalizing s' with
  | zero =>
    cases h
    exact hs
  | succ k ih =>
    rw [List.take_add_one, List.foldlM_append] at h
    obtain ⟨s₁, hs₁, h⟩ := bind_eq_ok_iff.1 h
    cases hx : b.stmts[k]? with
    | none =>
      -- No statement is left that could bind a local.
      rw [hx] at h
      cases h
      refine (ih hs₁).keep ?_
      rintro l index ⟨x, t, hx', -⟩
      rw [hx] at hx'
      cases hx'
    | some x =>
      rw [hx] at h
      obtain ⟨s₂, hs₂, h⟩ := bind_eq_ok_iff.1 h
      cases h
      exact (ih hs₁).seed hb hparams hx hs₂

end Seeded

/-- The bindings at the start of a method are those of its parameters. -/
theorem seeded_of_ofMethod (hb : b.Parameters m) (hstatic : m.isStatic)
    (hparams : ∀ j l index, b.Binds j l index → index < m.params.length)
    (h : ofMethod m b = .ok start) : Seeded m b b.stmts.length start := by
  obtain ⟨⟨params, behind⟩, hslots, h⟩ := bind_eq_ok_iff.1 h
  rw [hstatic, if_pos rfl] at hslots
  obtain ⟨rfl, rfl⟩ := paramSlots_eq_ok hslots
  refine (Seeded.entry m b).foldlM hb hparams b.stmts.length ?_
  rw [List.take_length]
  exact h

/-- A slot by declaration is for a variable of the program, and it is behind the parameters and
free. -/
theorem declaredSlot?_eq_some (h : s.declaredSlot? l = some n) :
    l.role = .ordinary ∧ s.first ≤ n ∧
      ∀ l' n', s.binding? l' = some (.slot n') → n + l.slots ≤ n' ∨ n' + l'.slots ≤ n := by
  unfold declaredSlot? at h
  split at h
  · cases h
  · rename_i hrole
    obtain ⟨index, -, h⟩ := Option.bind_eq_some_iff.1 h
    dsimp only at h
    split at h
    · rename_i hfree
      cases h
      refine ⟨by simpa using hrole, Nat.le_add_right _ _, fun l' n' hn' => ?_⟩
      have hmem : (l', Binding.slot n') ∈ s.bindings := mem_of_lookup_eq_some hn'
      simpa using List.all_eq_true.1 hfree.2 _ hmem
    · cases h

/-- A local of an integral type takes as many slots as its type. -/
theorem slots_eq (hl : l.ty.IsIntegral) : l.slots = l.ty.width := by
  rcases hl with hty | hty <;> rw [Local.slots, hty] <;> rfl

/-- The locals are in slots of their own, but for the stack temporaries. One that is bound to a
parameter is where the argument is passed that it is bound to first, and any other one is behind the
arguments. -/
structure Apart (m : Method) (b : Body) (s : Slots) : Prop where
  /-- A local that is bound to a parameter has a place. -/
  bound : ∀ j l index, b.Binds j l index → ∃ x, s.binding? l = some x
  /-- The operand stack is the place of the stack temporaries, and of these only. -/
  stack : ∀ l x, s.binding? l = some x → (x = .stack ↔ l.role = .stackTemp)
  /-- The slots that were taken reach behind every local. -/
  slot_le : ∀ l n, s.binding? l = some (.slot n) → n + l.slots ≤ s.next
  /-- The place of a local is that of an argument, or behind all of them. -/
  place : ∀ l n, s.binding? l = some (.slot n) →
    (∃ j index, b.Binds j l index ∧ (∀ j' index', b.Binds j' l index' → j ≤ j') ∧
      n = argumentPlace m.params index) ∨
      (∀ j index, ¬b.Binds j l index) ∧ argumentPlace m.params m.params.length ≤ n
  /-- Different locals are in different slots. -/
  disjoint : ∀ l l' n n', l ≠ l' → s.binding? l = some (.slot n) →
    s.binding? l' = some (.slot n') → n + l.slots ≤ n' ∨ n' + l'.slots ≤ n
  /-- The first slot behind the parameters is the one behind the arguments. -/
  first : s.first = argumentPlace m.params m.params.length
  /-- The slots that were taken reach behind the parameters. -/
  first_le : s.first ≤ s.next

/-- At the start of a method the locals are in slots of their own. -/
theorem Seeded.apart (hs : Seeded m b b.stmts.length s) (hpar : b.Parameters m)
    (hparams : ∀ j l index, b.Binds j l index → index < m.params.length) : Apart m b s := by
  have hlt : ∀ {j l index}, b.Binds j l index → j < b.stmts.length := by
    rintro j l index ⟨x, t, hx, -⟩
    exact (List.getElem?_eq_some_iff.1 hx).1
  refine
    { bound := fun j l index hb => hs.bound j l index hb (hlt hb)
      stack := fun l x hx => ?_
      slot_le := hs.slot_le
      place := fun l n hn => ?_
      disjoint := fun l l' n n' hne hn hn' => ?_
      first := hs.first
      first_le := hs.first_le }
  · obtain ⟨j, index, ⟨y, t, hy, hkind⟩, -, -, rfl⟩ := hs.place l x hx
    obtain ⟨_, _, -, hl, -⟩ := hpar.bound y (List.mem_of_getElem? hy) l _ hkind
    simp [hl.role]
  · obtain ⟨j, index, hb, -, hfirst, heq⟩ := hs.place l _ hn
    cases heq
    exact .inl ⟨j, index, hb, hfirst, rfl⟩
  · obtain ⟨j, index, hb, -, -, heq⟩ := hs.place l _ hn
    obtain ⟨j', index', hb', -, -, heq'⟩ := hs.place l' _ hn'
    cases heq
    cases heq'
    obtain ⟨t, ht⟩ : ∃ t, m.params[index]? = some t :=
      ⟨_, List.getElem?_eq_getElem (hparams j l index hb)⟩
    obtain ⟨t', ht'⟩ : ∃ t, m.params[index']? = some t :=
      ⟨_, List.getElem?_eq_getElem (hparams j' l' index' hb')⟩
    obtain ⟨hl, hty⟩ := hpar.ty_eq_of_binds hb ht
    obtain ⟨hl', hty'⟩ := hpar.ty_eq_of_binds hb' ht'
    rw [slots_eq hl.ty, slots_eq hl'.ty, hty, hty']
    -- One parameter would be bound to both locals by one statement.
    rcases Nat.lt_trichotomy index index' with hlt | rfl | hlt
    · exact .inl (argumentPlace_add_le ht hlt)
    · obtain rfl := hpar.binds_inj hb hb'
      exact absurd (hb.unique hb').1.symm hne
    · exact .inr (argumentPlace_add_le ht' hlt)

namespace Apart

/-- An integral local that has a place is in a slot. -/
theorem exists_slot (hs : Apart m b s) (hl : l.Integral) {x : Binding}
    (hx : s.binding? l = some x) : ∃ n, x = .slot n := by
  cases x with
  | slot n => exact ⟨n, rfl⟩
  | stack =>
    have hrole := (hs.stack l _ hx).1 rfl
    rw [hl.role] at hrole
    cases hrole

/-- A local without a place that is no stack temporary may go to free slots behind the
parameters. -/
theorem bind (hs : Apart m b s) (hrole : l.role ≠ .stackTemp) (hnone : s.binding? l = none)
    (hfirst : s.first ≤ n)
    (hfree : ∀ l' n', s.binding? l' = some (.slot n') → n + l.slots ≤ n' ∨ n' + l'.slots ≤ n)
    (hbind : s.bind l (.slot n) = .ok s') : Apart m b s' := by
  have hnot : ∀ j index, ¬b.Binds j l index := by
    intro j index hb
    obtain ⟨x, hx⟩ := hs.bound j l index hb
    rw [hnone] at hx
    cases hx
  refine
    { bound := fun j l' index hb => exists_binding?_bind hbind (hs.bound j l' index hb)
      stack := forall_of_bind hbind (by simp [hrole]) hs.stack
      slot_le := slot_le_next_of_bind hbind hs.slot_le
      place := fun l' n' hn' => ?_
      disjoint := pairwise_of_bind Or.symm hbind ?_ hs.disjoint
      first := (first_bind hbind).trans hs.first
      first_le := first_le_next_of_bind hbind hs.first_le }
  · rw [binding?_bind hbind] at hn'
    split at hn'
    · rename_i heq
      cases hn'
      subst heq
      exact .inr ⟨hnot, hs.first ▸ hfirst⟩
    · exact hs.place l' n' hn'
  · rintro _ ⟨⟩
    exact hfree

/-- A stack temporary may go to the operand stack. -/
theorem bindStack (hs : Apart m b s) (hrole : l.role = .stackTemp)
    (hbind : s.bind l .stack = .ok s') : Apart m b s' := by
  -- No slot is taken, so that whatever is known of locals in slots stays as it was.
  have hslot : ∀ l' n, s'.binding? l' = some (.slot n) → s.binding? l' = some (.slot n) := by
    intro l' n hn
    rw [binding?_bind hbind] at hn
    split at hn
    · cases hn
    · exact hn
  exact
    { bound := fun j l' index hb => exists_binding?_bind hbind (hs.bound j l' index hb)
      stack := forall_of_bind hbind (by simp [hrole]) hs.stack
      slot_le := slot_le_next_of_bind hbind hs.slot_le
      place := fun l' n hn => hs.place l' n (hslot l' n hn)
      disjoint := fun l₁ l₂ n₁ n₂ hne hn₁ hn₂ =>
        hs.disjoint l₁ l₂ n₁ n₂ hne (hslot l₁ n₁ hn₁) (hslot l₂ n₂ hn₂)
      first := (first_bind hbind).trans hs.first
      first_le := first_le_next_of_bind hbind hs.first_le }

/-- A numeric local that is asked for gets slots of its own, or stays on the operand stack. -/
theorem touch (hs : Apart m b s) (h : Touch Local.Numeric s s') : Apart m b s' := by
  have hresolve : ∀ {l : Local} {x : Binding}, l.Numeric → s.resolve l = .ok (x, s') →
      Apart m b s' := by
    intro l x hl h
    rcases resolve_ok_iff.1 h with ⟨-, rfl⟩ | ⟨hnone, rfl, hbind⟩
    · exact hs
    · -- A variable takes the slot behind all others, a stack temporary the operand stack.
      rcases hl.role with hrole | hrole <;> rw [fresh, hrole] at hbind
      · refine hs.bind (by simp [hrole]) hnone hs.first_le (fun l' n' hn' => .inr ?_) hbind
        exact hs.slot_le l' n' hn'
      · exact hs.bindStack hrole hbind
  cases h with
  | resolve hl h => exact hresolve hl h
  | declared hl h =>
    rcases resolveDeclared_ok h with ⟨n, hnone, hslot, rfl, hbind⟩ | h
    · obtain ⟨hrole, hfirst, hfree⟩ := declaredSlot?_eq_some hslot
      exact hs.bind (by simp [hrole]) hnone hfirst hfree hbind
    · exact hresolve hl h
  | move hl hrole hbind => rcases hl.role with hrole' | hrole' <;> simp [hrole'] at hrole

end Apart

/-- Lowering code for numeric locals keeps those that are in slots apart. -/
theorem Touches.apart (hs : Apart m b s) (h : Touches Local.Numeric s s') : Apart m b s' := by
  induction h with
  | refl => exact hs
  | tail _ hstep ih => exact ih.touch hstep

end Slots

end BytecodeLowering.Lowering
