import BytecodeLowering.Lowering.Slots
import BytecodeLowering.Proofs.Result
import Mathlib.Logic.Relation

/-!
# Changes to the slots of locals

What the lowering of a method does to the places of its locals.

* `slotBehind_eq_ok_iff`, `paramSlots_cons_eq_ok_iff`: how far the slots of a method go.
* `Slots.bind_ok_iff`, `Slots.resolve_ok_iff`, `Slots.seed_ok`: the single operations.
* `Slots.forall_of_bind`, `Slots.pairwise_of_bind`: what is known of the places of all locals, and
  of any two, when one of them is bound.
* `Slots.Touch`, `Slots.Touches`: the changes that are made for locals of a given kind, one of them
  and any number of them.
* `Slots.Touches.binding?_eq`, `Slots.Touches.binding?_keep`: other locals keep their places, and so
  does every bound local that is no other name for a caught exception.
* `Slots.Fills`: changes that move nothing.
-/

namespace BytecodeLowering.Lowering

open Ir

/-- Behind a value there is a slot if the value ends within the slots of a method. -/
theorem slotBehind_eq_ok_iff {slot width n : Nat} {owner : String} :
    slotBehind slot width owner = .ok n ↔ slot + width ≤ slotLimit ∧ slot + width = n := by
  by_cases h : slot + width ≤ slotLimit <;> simp [slotBehind, h]

/-- The first parameter takes the first slot, and the others the slots behind it. -/
theorem paramSlots_cons_eq_ok_iff {owner : String} {slot behind : Nat} {t : Ty} {ts : List Ty}
    {slots : List Nat} : paramSlots owner slot (t :: ts) = .ok (slots, behind) ↔
      slot + t.width ≤ slotLimit ∧ ∃ rest,
        paramSlots owner (slot + t.width) ts = .ok (rest, behind) ∧ slot :: rest = slots := by
  simp only [paramSlots, bind_eq_ok_iff, slotBehind_eq_ok_iff, and_assoc, exists_and_left,
    exists_eq_left', Prod.exists, pure, Except.pure, Except.ok.injEq, Prod.mk.injEq]
  grind

namespace Slots

variable {s s' s'' : Slots} {l l' : Local} {b : Binding}

/-- The slot behind a local at a binding, if it is in a slot. -/
def behind (l : Local) : Binding → Nat
  | .slot n => n + l.slots
  | .stack => 0

/-- A local can be bound where it ends within the slots of a method; the slots taken reach at least
behind it from then on. -/
theorem bind_ok_iff :
    s.bind l b = .ok s' ↔ behind l b ≤ slotLimit ∧
      { s with
        bindings := (l, b) :: s.bindings.filter fun x => x.1 ≠ l
        next := max s.next (behind l b) } = s' := by
  unfold Slots.bind
  cases b with
  | stack => simp [behind, bind_eq_ok_iff, pure, Except.pure]
  | slot n =>
    simp only [behind, slotBehind_eq_ok_iff, BytecodeLowering.bind_eq_ok_iff, map_eq_ok_iff]
    by_cases h : n + l.slots ≤ slotLimit
    · simp [h, pure, Except.pure]
    · simp [h]

/-- A local that is bound is at its new place, and the others are where they were. -/
theorem binding?_bind (h : s.bind l b = .ok s') :
    s'.binding? l' = if l' = l then some b else s.binding? l' := by
  obtain ⟨-, rfl⟩ := bind_ok_iff.1 h
  by_cases hl : l' = l
  · simp [binding?, hl]
  · have hne : (l' == l) = false := beq_false_of_ne hl
    simp only [binding?, List.lookup_cons, hne, if_neg hl]
    -- The entries that are dropped are those of another local.
    induction s.bindings with
    | nil => rfl
    | cons x xs ih =>
      by_cases hx : x.1 = l
      · have hxne : (l' == x.1) = false := beq_false_of_ne (hx ▸ hl)
        rw [List.filter_cons_of_neg (by simpa using hx), List.lookup_cons, hxne, ih]
      · rw [List.filter_cons_of_pos (by simpa using hx), List.lookup_cons, List.lookup_cons, ih]

/-- A local that has a place has one from then on. -/
theorem exists_binding?_bind (h : s.bind l b = .ok s') (hl : ∃ x, s.binding? l' = some x) :
    ∃ x, s'.binding? l' = some x := by
  rw [binding?_bind h]
  split
  · exact ⟨b, rfl⟩
  · exact hl

/-- What holds of every local at its place still does if it holds of the one that is bound. -/
theorem forall_of_bind {P : Local → Binding → Prop} (h : s.bind l b = .ok s') (hb : P l b)
    (hs : ∀ l' b', s.binding? l' = some b' → P l' b') :
    ∀ l' b', s'.binding? l' = some b' → P l' b' := by
  intro l' b' hb'
  rw [binding?_bind h] at hb'
  split at hb'
  · rename_i heq
    rw [heq, ← Option.some.inj hb']
    exact hb
  · exact hs l' b' hb'

/-- What holds of any two locals in slots still does if it holds of the one that is bound and any
other. -/
theorem pairwise_of_bind {R : Local → Nat → Local → Nat → Prop}
    (hsymm : ∀ {l l' n n'}, R l n l' n' → R l' n' l n) (h : s.bind l b = .ok s')
    (hb : ∀ n, b = .slot n → ∀ l' n', s.binding? l' = some (.slot n') → R l n l' n')
    (hs : ∀ l₁ l₂ n₁ n₂, l₁ ≠ l₂ → s.binding? l₁ = some (.slot n₁) →
      s.binding? l₂ = some (.slot n₂) → R l₁ n₁ l₂ n₂) :
    ∀ l₁ l₂ n₁ n₂, l₁ ≠ l₂ → s'.binding? l₁ = some (.slot n₁) →
      s'.binding? l₂ = some (.slot n₂) → R l₁ n₁ l₂ n₂ := by
  intro l₁ l₂ n₁ n₂ hne hn₁ hn₂
  rw [binding?_bind h] at hn₁ hn₂
  -- At most one of the two locals is the one that is bound now.
  by_cases h₁ : l₁ = l
  · subst h₁
    rw [if_pos rfl] at hn₁
    rw [if_neg (Ne.symm hne)] at hn₂
    exact hb n₁ (Option.some.inj hn₁) l₂ n₂ hn₂
  · rw [if_neg h₁] at hn₁
    by_cases h₂ : l₂ = l
    · subst h₂
      rw [if_pos rfl] at hn₂
      exact hsymm (hb n₂ (Option.some.inj hn₂) l₁ n₁ hn₁)
    · rw [if_neg h₂] at hn₂
      exact hs l₁ l₂ n₁ n₂ hne hn₁ hn₂

/-- The parameters stay where they are. -/
theorem param?_bind (h : s.bind l b = .ok s') (i : Nat) : s'.param? i = s.param? i := by
  obtain ⟨-, rfl⟩ := bind_ok_iff.1 h
  rfl

/-- The first slot behind the parameters stays the same. -/
theorem first_bind (h : s.bind l b = .ok s') : s'.first = s.first := by
  obtain ⟨-, rfl⟩ := bind_ok_iff.1 h
  rfl

/-- A local that is bound leaves no slot behind that was taken. -/
theorem next_le_of_bind (h : s.bind l b = .ok s') : s.next ≤ s'.next := by
  rw [← (bind_ok_iff.1 h).2]
  exact Nat.le_max_left _ _

/-- The slots that were taken still reach behind the parameters, if they did before. -/
theorem first_le_next_of_bind (h : s.bind l b = .ok s') (hs : s.first ≤ s.next) :
    s'.first ≤ s'.next := by
  rw [first_bind h]
  exact Nat.le_trans hs (next_le_of_bind h)

/-- The slots that were taken still reach behind every local, if they did before. -/
theorem slot_le_next_of_bind (h : s.bind l b = .ok s')
    (hs : ∀ l' n, s.binding? l' = some (.slot n) → n + l'.slots ≤ s.next) :
    ∀ l' n, s'.binding? l' = some (.slot n) → n + l'.slots ≤ s'.next := by
  have hnext : max s.next (behind l b) = s'.next := by rw [← (bind_ok_iff.1 h).2]
  have hslot : ∀ l' x, s'.binding? l' = some x → ∀ n, x = .slot n → n + l'.slots ≤ s'.next := by
    rw [← hnext]
    refine forall_of_bind h ?_ ?_
    · rintro n rfl
      exact Nat.le_max_right _ _
    · rintro l' _ hn n rfl
      exact Nat.le_trans (hs l' n hn) (Nat.le_max_left _ _)
  exact fun l' n hn => hslot l' _ hn n rfl

/-- The place of a local is the one that it has, or one that it gets now. -/
theorem resolve_ok_iff :
    s.resolve l = .ok (b, s') ↔
      s.binding? l = some b ∧ s = s' ∨
        s.binding? l = none ∧ s.fresh l = b ∧ s.bind l b = .ok s' := by
  rw [resolve]
  cases h : s.binding? l with
  | some b' => simp
  | none =>
    simp only [map_eq_ok_iff, Prod.mk.injEq, reduceCtorEq, false_and, true_and, false_or]
    constructor
    · rintro ⟨_, hbind, rfl, rfl⟩
      exact ⟨rfl, hbind⟩
    · rintro ⟨rfl, hbind⟩
      exact ⟨s', hbind, rfl, rfl⟩

/-- A local has the place that it resolves to from then on. -/
theorem binding?_resolve (h : s.resolve l = .ok (b, s')) : s'.binding? l = some b := by
  rcases resolve_ok_iff.1 h with ⟨hb, rfl⟩ | ⟨-, -, hbind⟩
  · exact hb
  · rw [binding?_bind hbind, if_pos rfl]

/-- The place of a local by its declaration is the one that it has, one that it gets now by its
declaration, or one that it gets like any other local. -/
theorem resolveDeclared_ok (h : s.resolveDeclared l = .ok (b, s')) :
    (∃ n, s.binding? l = none ∧ s.declaredSlot? l = some n ∧ b = .slot n ∧ s.bind l b = .ok s') ∨
      s.resolve l = .ok (b, s') := by
  unfold resolveDeclared at h
  split at h
  · rename_i n hnone hslot
    obtain ⟨_, hbind, heq⟩ := map_eq_ok_iff.1 h
    cases heq
    exact .inl ⟨n, hnone, hslot, rfl, hbind⟩
  · exact .inr h

/-- An identity statement binds its local to the place of its value, if it has none yet and can stay
there; nothing else is done at the start of a method. -/
theorem seed_ok {isStatic : Bool} {x : Stmt} (h : seed isStatic s x = .ok s') :
    s = s' ∨ ∃ l source n, x.kind = .identity l source ∧ s.binding? l = none ∧
      s.home? isStatic l source = some n ∧ s.bind l (.slot n) = .ok s' := by
  unfold seed at h
  split at h
  · split at h
    · rename_i hnone hhome
      exact .inr ⟨_, _, _, rfl, hnone, hhome, h⟩
    · cases h
      exact .inl rfl
  · cases h
    exact .inl rfl

/-- The local of an identity statement is bound from then on, if it can stay at the place of its
value. -/
theorem exists_binding?_of_seed {isStatic : Bool} {x : Stmt} {source : Source} {n : Nat}
    (h : seed isStatic s x = .ok s') (hx : x.kind = .identity l source)
    (hhome : s.home? isStatic l source = some n) : ∃ b, s'.binding? l = some b := by
  obtain ⟨id, line, kind⟩ := x
  subst hx
  simp only [seed, hhome] at h
  cases hb : s.binding? l with
  | none =>
    simp only [hb] at h
    exact ⟨_, by rw [binding?_bind h, if_pos rfl]⟩
  | some b =>
    simp only [hb] at h
    cases h
    exact ⟨b, hb⟩

/-- One change to the slots for a local of the given kind: it gets a place when it has none, or it
is another name for a caught exception and is moved. -/
inductive Touch (P : Local → Prop) : Slots → Slots → Prop
  | resolve {s s' : Slots} {l : Local} {b : Binding} :
      P l → s.resolve l = .ok (b, s') → Touch P s s'
  | declared {s s' : Slots} {l : Local} {b : Binding} :
      P l → s.resolveDeclared l = .ok (b, s') → Touch P s s'
  | move {s s' : Slots} {l : Local} {b : Binding} :
      P l → l.role = .handlerRef → s.bind l b = .ok s' → Touch P s s'

/-- Any number of changes to the slots for locals of the given kind. -/
def Touches (P : Local → Prop) : Slots → Slots → Prop :=
  Relation.ReflTransGen (Touch P)

/-- A change either does nothing, or binds a local that has no place or may be moved. -/
theorem Touch.eq_or_exists_bind {P : Local → Prop} (h : Touch P s s') :
    s = s' ∨ ∃ l b, P l ∧ (s.binding? l = none ∨ l.role = .handlerRef) ∧ s.bind l b = .ok s' := by
  have hresolve : ∀ {l b}, P l → s.resolve l = .ok (b, s') → s = s' ∨
      ∃ l b, P l ∧ (s.binding? l = none ∨ l.role = .handlerRef) ∧ s.bind l b = .ok s' := by
    intro l b hl h
    rcases resolve_ok_iff.1 h with ⟨-, rfl⟩ | ⟨hnone, -, hbind⟩
    · exact .inl rfl
    · exact .inr ⟨l, b, hl, .inl hnone, hbind⟩
  cases h with
  | resolve hl h => exact hresolve hl h
  | declared hl h =>
    rcases resolveDeclared_ok h with ⟨n, hnone, -, -, hbind⟩ | h
    · exact .inr ⟨_, _, hl, .inl hnone, hbind⟩
    · exact hresolve hl h
  | move hl hrole hbind => exact .inr ⟨_, _, hl, .inr hrole, hbind⟩

namespace Touches

variable {P Q : Local → Prop}

/-- No change is made at all. -/
theorem refl : Touches P s s :=
  Relation.ReflTransGen.refl

/-- Changes are made after other changes. -/
theorem trans (h : Touches P s s') (h' : Touches P s' s'') : Touches P s s'' :=
  Relation.ReflTransGen.trans h h'

/-- A change is made. -/
theorem single (h : Touch P s s') : Touches P s s' :=
  Relation.ReflTransGen.single h

/-- The kind of the locals may be wider. -/
theorem mono (hPQ : ∀ l, P l → Q l) (h : Touches P s s') : Touches Q s s' := by
  refine Relation.ReflTransGen.mono (fun s s' h => ?_) _ _ h
  cases h with
  | resolve hl h => exact .resolve (hPQ _ hl) h
  | declared hl h => exact .declared (hPQ _ hl) h
  | move hl hrole h => exact .move (hPQ _ hl) hrole h

/-- What every binding of a local without a fixed place keeps is kept by all changes. -/
theorem induct {R : Slots → Prop}
    (hbind : ∀ s s' l b, P l → (s.binding? l = none ∨ l.role = .handlerRef) →
      s.bind l b = .ok s' → R s → R s') (h : Touches P s s') (hs : R s) : R s' := by
  induction h with
  | refl => exact hs
  | tail _ hstep ih =>
    rcases hstep.eq_or_exists_bind with rfl | ⟨l, b, hl, hfree, h⟩
    · exact ih
    · exact hbind _ _ l b hl hfree h ih

/-- A local of another kind keeps its place. -/
theorem binding?_eq (h : Touches P s s') (hl : ¬P l) : s'.binding? l = s.binding? l := by
  refine h.induct (R := fun s' => s'.binding? l = s.binding? l) ?_ rfl
  intro s₁ s₂ l₁ b hl₁ _ hbind ih
  have hne : l ≠ l₁ := fun heq => hl (heq ▸ hl₁)
  rw [binding?_bind hbind, if_neg hne, ih]

/-- A local with a place keeps it, unless it is another name for a caught exception. -/
theorem binding?_keep (h : Touches P s s') (hrole : l.role ≠ .handlerRef)
    (hb : s.binding? l = some b) : s'.binding? l = some b := by
  refine h.induct (R := fun s' => s'.binding? l = some b) ?_ hb
  intro s₁ s₂ l₁ b₁ _ hfree hbind ih
  rw [binding?_bind hbind]
  by_cases heq : l = l₁
  · subst heq
    rcases hfree with hnone | hmoved
    · rw [hnone] at ih
      cases ih
    · exact absurd hmoved hrole
  · rw [if_neg heq, ih]

/-- The slots of the parameters and the order of declaration stay what they are. -/
theorem fixed (h : Touches P s s') :
    s'.params = s.params ∧ s'.first = s.first ∧ s'.declared = s.declared := by
  refine h.induct (R := fun s' =>
    s'.params = s.params ∧ s'.first = s.first ∧ s'.declared = s.declared) ?_ ⟨rfl, rfl, rfl⟩
  intro s₁ s₂ l b _ _ hbind ih
  obtain ⟨-, rfl⟩ := bind_ok_iff.1 hbind
  exact ih

end Touches

/-- Changes for locals of the given kind that move nothing: some of them get a place. -/
structure Fills (P : Local → Prop) (s s' : Slots) : Prop where
  /-- Only locals of the kind are touched. -/
  touches : Touches P s s'
  /-- Every local that has a place keeps it. -/
  keeps : ∀ l b, s.binding? l = some b → s'.binding? l = some b

namespace Fills

variable {P : Local → Prop}

/-- No change is made at all. -/
theorem refl : Fills P s s :=
  ⟨.refl, fun _ _ hb => hb⟩

/-- Changes are made after other changes. -/
theorem trans (h : Fills P s s') (h' : Fills P s' s'') : Fills P s s'' :=
  ⟨h.touches.trans h'.touches, fun l b hb => h'.keeps l b (h.keeps l b hb)⟩

/-- A local without a place gets one. -/
theorem keeps_of_bind (hnone : s.binding? l = none) (h : s.bind l b = .ok s') :
    ∀ l' b', s.binding? l' = some b' → s'.binding? l' = some b' := by
  intro l' b' hb'
  have hne : l' ≠ l := by
    rintro rfl
    rw [hnone] at hb'
    cases hb'
  rw [binding?_bind h, if_neg hne, hb']

/-- The place of a local is looked up. -/
theorem resolve (hl : P l) (h : s.resolve l = .ok (b, s')) : Fills P s s' := by
  refine ⟨.single (.resolve hl h), ?_⟩
  rcases resolve_ok_iff.1 h with ⟨-, rfl⟩ | ⟨hnone, -, hbind⟩
  · exact fun _ _ hb => hb
  · exact keeps_of_bind hnone hbind

/-- The place of a local is looked up, by preference by its declaration. -/
theorem declared (hl : P l) (h : s.resolveDeclared l = .ok (b, s')) : Fills P s s' := by
  refine ⟨.single (.declared hl h), ?_⟩
  rcases resolveDeclared_ok h with ⟨n, hnone, -, -, hbind⟩ | h
  · exact keeps_of_bind hnone hbind
  · exact (resolve hl h).keeps

end Fills

end Slots

end BytecodeLowering.Lowering
