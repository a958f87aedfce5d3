import BytecodeLowering.Proofs.Lowering.Home
import Mathlib

/-!
# Disjoint locals

Whatever is asked about the locals of a method, in whatever order, two locals never share a slot.

* `Slots.Lookup`, `Slots.after`: the questions that find or make the place of a local, and the slots
  behind one of them.
* `Slots.Home`: the three kinds of places that a local is given: that of the receiver, that of an
  argument, and any place behind the arguments.
* `Slots.Separate`: what the start of a method establishes and every lookup keeps.
* `Slots.disjoint_of_lookups`: distinct locals occupy disjoint slots, and only the receiver and the
  locals of parameters are in those of the arguments.
-/

namespace BytecodeLowering.Lowering

open Ir

/-- A local stands for the receiver, by its role or because an identity statement says so. -/
def DenotesReceiver (b : Body) (l : Local) : Prop :=
  l.role = .receiver ∨ ∃ x ∈ b.stmts, x.kind = .identity l .this

/-- The first slot of the arguments, behind the receiver if there is one. -/
def argumentStart (m : Method) : Nat :=
  if m.isStatic then 0 else 1

/-- The slot behind the arguments. -/
def argumentEnd (m : Method) : Nat :=
  argumentStart m + argumentPlace m.params m.params.length

namespace Slots

/-- A question about the place of a local. -/
inductive Lookup where
  /-- The place of a local. -/
  | resolve (l : Local)
  /-- The place of a local, by preference the one by its declaration. -/
  | declared (l : Local)
  /-- The place of an operand. -/
  | operand (op : Operand)
  /-- Whether a local lives on the operand stack. -/
  | resident (l : Local)
  deriving DecidableEq, Repr

/-- The local that a question is about, if it is about one. -/
def Lookup.local? : Lookup → Option Local
  | resolve l | declared l | resident l => some l
  | operand op => op.local?

/-- The slots behind a question that has an answer. -/
def Lookup.run (s : Slots) : Lookup → Lowered Slots
  | resolve l => (s.resolve l).map Prod.snd
  | declared l => (s.resolveDeclared l).map Prod.snd
  | operand op => (s.resolveOperand op).map Prod.snd
  | resident l => (s.isStackResident l).map Prod.snd

/-- The slots behind a question. One without an answer leaves them as they are. -/
def after (s : Slots) (q : Lookup) : Slots :=
  match q.run s with
  | .ok s' => s'
  | .error _ => s

/-- The slots that a local occupies from the given one on. -/
def span (l : Local) (n : Nat) : Set Nat :=
  Set.Ico n (n + max l.ty.width 1)

/-- The locals that are asked about fit the arguments of a method. -/
structure Fitting (m : Method) (b : Body) (qs : List Lookup) : Prop where
  /-- No parameter is void. -/
  nonvoid : .void ∉ m.params
  /-- A parameter is named by at most one local. -/
  once : ∀ k k' l l' i, i < m.params.length → b.Binds k l i → b.Binds k' l' i → l = l'
  /-- That local is as wide as the parameter. -/
  width : ∀ k l i t, b.Binds k l i → m.params[i]? = some t → l.ty.width = t.width
  /-- A local of an identity statement that stands for the receiver takes one slot. -/
  bound : ∀ x ∈ b.stmts, ∀ l source, x.kind = .identity l source → DenotesReceiver b l →
    l.ty.width = 1
  /-- So does one that is asked about. -/
  asked : ∀ q ∈ qs, ∀ l, q.local? = some l → DenotesReceiver b l → l.ty.width = 1
  /-- There is no receiver to ask about in a static method. -/
  static : m.isStatic → ∀ q ∈ qs, ∀ l, q.local? = some l → l.role ≠ .receiver

variable {m : Method} {b : Body} {qs : List Lookup} {s s' start : Slots} {l l' : Local}
  {n n' : Nat}

/-- A place that a local may be given. -/
inductive Home (m : Method) (b : Body) (l : Local) : Nat → Prop
  /-- The slot of the receiver, for a local that stands for it. -/
  | receiver : m.isStatic = false → DenotesReceiver b l → l.ty.width = 1 → Home m b l 0
  /-- The slots of an argument, for the local that is bound to its parameter. -/
  | argument {k i : Nat} {t : Ty} : b.Binds k l i → m.params[i]? = some t →
      Home m b l (argumentStart m + argumentPlace m.params i)
  /-- Slots behind those of the arguments. -/
  | behind {n : Nat} : argumentEnd m ≤ n → Home m b l n

/-- A parameter that is not void takes at least one slot. -/
theorem Fitting.width_pos (hfit : Fitting m b qs) {i : Nat} {t : Ty} (ht : m.params[i]? = some t) :
    0 < t.width := by
  have hne : t ≠ .void := by
    rintro rfl
    exact hfit.nonvoid (List.mem_of_getElem? ht)
  cases t with
  | void => exact absurd rfl hne
  | prim p => cases p <;> decide
  | _ => exact Nat.one_pos

/-- The local of a parameter takes the slots of its argument. -/
theorem Fitting.slots_eq (hfit : Fitting m b qs) {k i : Nat} {t : Ty} (hb : b.Binds k l i)
    (ht : m.params[i]? = some t) : l.slots = t.width := by
  have hpos := hfit.width_pos ht
  rw [Local.slots, hfit.width k l i t hb ht]
  omega

/-- The locals of two parameters have the slots of different arguments. -/
theorem Fitting.apart (hfit : Fitting m b qs) {k k' i i' : Nat} {t t' : Ty} (hb : b.Binds k l i)
    (ht : m.params[i]? = some t) (hb' : b.Binds k' l' i') (ht' : m.params[i']? = some t')
    (hne : l ≠ l') :
    argumentPlace m.params i + l.slots ≤ argumentPlace m.params i' ∨
      argumentPlace m.params i' + l'.slots ≤ argumentPlace m.params i := by
  rw [hfit.slots_eq hb ht, hfit.slots_eq hb' ht']
  rcases Nat.lt_trichotomy i i' with hlt | rfl | hlt
  · exact .inl (argumentPlace_add_le ht hlt)
  · -- One parameter is named by one local only.
    have hi := (List.getElem?_eq_some_iff.1 ht).1
    exact absurd (hfit.once k k' l l' i hi hb hb') hne
  · exact .inr (argumentPlace_add_le ht' hlt)

/-- The receiver is in front of the arguments, and these are in front of the other locals. -/
theorem Home.region (hfit : Fitting m b qs) (h : Home m b l n) :
    (DenotesReceiver b l ∧ n + l.slots ≤ argumentStart m) ∨
      (∃ k i t, b.Binds k l i ∧ m.params[i]? = some t ∧
        n = argumentStart m + argumentPlace m.params i ∧ n + l.slots ≤ argumentEnd m) ∨
      argumentEnd m ≤ n := by
  cases h with
  | receiver hs hl hw =>
    refine .inl ⟨hl, ?_⟩
    simp [Local.slots, hw, argumentStart, hs]
  | @argument k i t hb ht =>
    refine .inr (.inl ⟨k, i, t, hb, ht, rfl, ?_⟩)
    have hle := argumentPlace_add_le_length ht
    rw [hfit.slots_eq hb ht, argumentEnd]
    omega
  | behind hle => exact .inr (.inr hle)

/-- Two locals at home are apart, unless both stand for the receiver, or both are behind the
arguments. -/
theorem Home.apart (hfit : Fitting m b qs) (h : Home m b l n) (h' : Home m b l' n') (hne : l ≠ l')
    (hnot : ¬(DenotesReceiver b l ∧ DenotesReceiver b l')) :
    argumentEnd m ≤ n ∧ argumentEnd m ≤ n' ∨ n + l.slots ≤ n' ∨ n' + l'.slots ≤ n := by
  have hstart : argumentStart m ≤ argumentEnd m := Nat.le_add_right _ _
  rcases h.region hfit with ⟨hl, hn⟩ | ⟨k, i, t, hb, ht, rfl, hn⟩ | hn <;>
    rcases h'.region hfit with ⟨hl', hn'⟩ | ⟨k', i', t', hb', ht', rfl, hn'⟩ | hn'
  · exact absurd ⟨hl, hl'⟩ hnot
  case inr.inl.inr.inl =>
    -- Both are arguments, and those of different parameters.
    have hapart := hfit.apart hb ht hb' ht' hne
    omega
  all_goals omega

/-- Every local is at home, and those behind the arguments share no slot. -/
structure Separate (m : Method) (b : Body) (s : Slots) : Prop where
  /-- A local in a slot is at home there. -/
  home : ∀ l n, s.binding? l = some (.slot n) → Home m b l n
  /-- The slots that were taken reach behind every local. -/
  slot_le : ∀ l n, s.binding? l = some (.slot n) → n + l.slots ≤ s.next
  /-- Different locals behind the arguments are in different slots. -/
  apart : ∀ l l' n n', l ≠ l' → s.binding? l = some (.slot n) → s.binding? l' = some (.slot n') →
    argumentEnd m ≤ n → argumentEnd m ≤ n' → n + l.slots ≤ n' ∨ n' + l'.slots ≤ n
  /-- A parameter has the slots of its argument. -/
  param : ∀ i n, s.param? i = some n →
    i < m.params.length ∧ n = argumentStart m + argumentPlace m.params i
  /-- The first slot behind the parameters is the one behind the arguments. -/
  first : s.first = argumentEnd m
  /-- The slots that were taken reach behind the parameters. -/
  first_le : s.first ≤ s.next

namespace Separate

/-- A local may be bound to a home. Behind the arguments the slots there have to be free. -/
theorem bind (hs : Separate m b s) {x : Binding} (hhome : ∀ n, x = .slot n → Home m b l n)
    (hfree : ∀ n, x = .slot n → argumentEnd m ≤ n → ∀ l' n', s.binding? l' = some (.slot n') →
      n + l.slots ≤ n' ∨ n' + l'.slots ≤ n)
    (hbind : s.bind l x = .ok s') : Separate m b s' := by
  have hhomes := forall_of_bind (P := fun l x => ∀ n, x = .slot n → Home m b l n) hbind hhome
    fun l' x hx n hn => hs.home l' n (hn ▸ hx)
  refine
    { home := fun l' n hn => hhomes l' _ hn n rfl
      slot_le := slot_le_next_of_bind hbind hs.slot_le
      apart := ?_
      param := by simpa only [param?_bind hbind] using hs.param
      first := (first_bind hbind).trans hs.first
      first_le := first_le_next_of_bind hbind hs.first_le }
  -- In front of the end of the arguments nothing is asked of two locals here, since they are at
  -- home.
  refine pairwise_of_bind (R := fun l n l' n' => argumentEnd m ≤ n → argumentEnd m ≤ n' →
    n + l.slots ≤ n' ∨ n' + l'.slots ≤ n) ?_ hbind ?_ hs.apart
  · intro l l' n n' h hle' hle
    exact (h hle hle').symm
  · intro n hn l' n' hn' hle _
    exact hfree n hn hle l' n' hn'

/-- An identity statement puts its local where its value is passed. -/
theorem seed (hfit : Fitting m b qs) (hs : Separate m b s) {x : Stmt} (hx : x ∈ b.stmts)
    (h : Slots.seed m.isStatic s x = .ok s') : Separate m b s' := by
  rcases seed_ok h with rfl | ⟨l, source, n, hkind, -, hhome, hbind⟩
  · exact hs
  -- The slots of the receiver and of the arguments are not behind the arguments.
  have hn : Home m b l n ∧ n < argumentEnd m := by
    cases source with
    | this =>
      cases hstatic : m.isStatic with
      | true => simp [home?, hstatic] at hhome
      | false =>
        obtain rfl : 0 = n := by simpa [home?, hstatic] using hhome
        have hl : DenotesReceiver b l := .inr ⟨x, hx, hkind⟩
        refine ⟨.receiver hstatic hl (hfit.bound x hx l .this hkind hl), ?_⟩
        simp only [argumentEnd, argumentStart, hstatic, Bool.false_eq_true, if_false]
        omega
    | parameter i t =>
      have hparam : s.param? i = some n := by
        rw [home?] at hhome
        split at hhome
        · cases hhome
        · exact hhome
      obtain ⟨hi, rfl⟩ := hs.param i n hparam
      obtain ⟨k, hk⟩ := List.getElem?_of_mem hx
      have ht := List.getElem?_eq_getElem hi
      refine ⟨.argument ⟨x, t, hk, hkind⟩ ht, ?_⟩
      have hpos := hfit.width_pos ht
      have hle := argumentPlace_add_le_length ht
      rw [argumentEnd]
      omega
    | caughtException => cases hhome
  refine hs.bind ?_ ?_ hbind
  · rintro _ ⟨⟩
    exact hn.1
  · rintro _ ⟨⟩ hle
    exact absurd hn.2 (Nat.not_lt_of_le hle)

/-- At the start of a method all locals are apart. -/
theorem of_ofMethod (hfit : Fitting m b qs) (h : ofMethod m b = .ok start) :
    Separate m b start := by
  obtain ⟨⟨params, behind⟩, hslots, h⟩ := bind_eq_ok_iff.1 h
  obtain ⟨rfl, rfl⟩ := paramSlots_eq_ok hslots
  -- No local has a place before the identity statements are gone through.
  refine foldlM_induct h ?_ fun x hx s s' hs h => hs.seed hfit hx h
  refine
    { home := by simp [binding?]
      slot_le := by simp [binding?]
      apart := by simp [binding?]
      param := fun i n hn => ?_
      first := rfl
      first_le := Nat.le_refl _ }
  obtain ⟨hi, rfl⟩ := List.getElem?_eq_some_iff.1 (show _ = some n from hn)
  rw [List.length_map, List.length_range] at hi
  exact ⟨hi, by rw [List.getElem_map, List.getElem_range]; rfl⟩

/-- A local that is asked for is given the place of its role: the slot of the receiver, the operand
stack, or the next slot. -/
theorem resolve (hs : Separate m b s) {x : Binding}
    (hreceiver : l.role = .receiver → m.isStatic = false ∧ l.ty.width = 1)
    (h : s.resolve l = .ok (x, s')) : Separate m b s' := by
  rcases resolve_ok_iff.1 h with ⟨-, rfl⟩ | ⟨-, rfl, hbind⟩
  · exact hs
  cases hrole : l.role with
  | receiver =>
    obtain ⟨hstatic, hwidth⟩ := hreceiver hrole
    rw [show s.fresh l = .slot 0 by simp [fresh, hrole]] at hbind
    refine hs.bind ?_ ?_ hbind
    · rintro _ ⟨⟩
      -- The slot of the receiver is the first one of the arguments, and so not behind them.
      exact .receiver hstatic (.inl hrole) hwidth
    · rintro _ ⟨⟩ hle
      simp only [argumentEnd, argumentStart, hstatic, Bool.false_eq_true, if_false] at hle
      omega
  | stackTemp =>
    rw [show s.fresh l = .stack by simp [fresh, hrole]] at hbind
    refine hs.bind ?_ ?_ hbind
    · rintro _ ⟨⟩
    · rintro _ ⟨⟩
  | ordinary | handlerRef =>
    rw [show s.fresh l = .slot s.next by simp [fresh, hrole]] at hbind
    refine hs.bind ?_ ?_ hbind
    · rintro _ ⟨⟩
      exact .behind (hs.first ▸ hs.first_le)
    · -- All locals end in front of the next slot.
      rintro _ ⟨⟩ - l' n' hn'
      exact .inr (hs.slot_le l' n' hn')

/-- A local that is asked for by its declaration is given free slots behind the arguments, or else
the place of its role. -/
theorem resolveDeclared (hs : Separate m b s) {x : Binding}
    (hreceiver : l.role = .receiver → m.isStatic = false ∧ l.ty.width = 1)
    (h : s.resolveDeclared l = .ok (x, s')) : Separate m b s' := by
  rcases resolveDeclared_ok h with ⟨n, -, hslot, rfl, hbind⟩ | h
  · obtain ⟨-, hfirst, hfree⟩ := declaredSlot?_eq_some hslot
    refine hs.bind ?_ ?_ hbind
    · rintro _ ⟨⟩
      exact .behind (hs.first ▸ hfirst)
    · rintro _ ⟨⟩ -
      exact hfree
  · exact hs.resolve hreceiver h

/-- No question moves locals together. -/
theorem after (hfit : Fitting m b qs) (hs : Separate m b s) {q : Lookup} (hq : q ∈ qs) :
    Separate m b (s.after q) := by
  unfold Slots.after
  split
  · rename_i s' hrun
    have hreceiver : ∀ l, q.local? = some l → l.role = .receiver →
        m.isStatic = false ∧ l.ty.width = 1 := by
      intro l hl hrole
      refine ⟨?_, hfit.asked q hq l hl (.inl hrole)⟩
      rw [← Bool.not_eq_true]
      exact fun hstatic => hfit.static hstatic q hq l hl hrole
    -- Whatever is asked, it is one local that is given a place.
    cases q with
    | resolve l =>
      obtain ⟨_, h, rfl⟩ := map_eq_ok_iff.1 hrun
      exact hs.resolve (hreceiver l rfl) h
    | declared l =>
      obtain ⟨_, h, rfl⟩ := map_eq_ok_iff.1 hrun
      exact hs.resolveDeclared (hreceiver l rfl) h
    | operand op =>
      obtain ⟨_, h, rfl⟩ := map_eq_ok_iff.1 hrun
      cases op with
      | var l => exact hs.resolve (hreceiver l rfl) h
      | const c => cases h
    | resident l =>
      obtain ⟨_, hresident, rfl⟩ := map_eq_ok_iff.1 hrun
      obtain ⟨_, h, rfl⟩ := map_eq_ok_iff.1 hresident
      exact hs.resolve (hreceiver l rfl) h
  · exact hs

/-- The run of all questions keeps locals apart. -/
theorem foldl_after (hfit : Fitting m b qs) (hs : Separate m b s) {rs : List Lookup}
    (hrs : ∀ q ∈ rs, q ∈ qs) : Separate m b (rs.foldl Slots.after s) := by
  induction rs generalizing s with
  | nil => exact hs
  | cons q rs ih =>
    exact ih (hs.after hfit (hrs q List.mem_cons_self))
      fun q hq => hrs q (List.mem_cons_of_mem _ hq)

end Separate

/-- Distinct locals never clobber each other. After any questions about the locals of a method, two
locals that do not both stand for the receiver occupy disjoint slots, and a local that is neither
the receiver nor bound to a parameter is not in the slots of the arguments. -/
theorem disjoint_of_lookups (hfit : Fitting m b qs) (h : ofMethod m b = .ok start) :
    (∀ l l' n n', l ≠ l' → ¬(DenotesReceiver b l ∧ DenotesReceiver b l') →
      (qs.foldl after start).binding? l = some (.slot n) →
      (qs.foldl after start).binding? l' = some (.slot n') → Disjoint (span l n) (span l' n')) ∧
    ∀ l n, ¬DenotesReceiver b l → (∀ k i, i < m.params.length → ¬b.Binds k l i) →
      (qs.foldl after start).binding? l = some (.slot n) →
      Disjoint (span l n) (Set.Ico 0 (argumentEnd m)) := by
  have hs := (Separate.of_ofMethod hfit h).foldl_after hfit fun q hq => hq
  constructor
  · intro l l' n n' hne hnot hn hn'
    -- Their homes are apart, or else both are behind the arguments.
    have hapart : n + l.slots ≤ n' ∨ n' + l'.slots ≤ n := by
      rcases (hs.home l n hn).apart hfit (hs.home l' n' hn') hne hnot with ⟨hle, hle'⟩ | hapart
      · exact hs.apart l l' n n' hne hn hn' hle hle'
      · exact hapart
    rw [span, span, Set.Ico_disjoint_Ico]
    simp only [Local.slots] at hapart
    omega
  · intro l n hnot hbinds hn
    have hle : argumentEnd m ≤ n := by
      cases hs.home l n hn with
      | receiver _ hl _ => exact absurd hl hnot
      | argument hb ht => exact absurd hb (hbinds _ _ (List.getElem?_eq_some_iff.1 ht).1)
      | behind hle => exact hle
    rw [span, Set.Ico_disjoint_Ico]
    omega

section Mix

/-- The receiver of `mix`. -/
def mixReceiver : Local := ⟨"this", .object ⟨"A"⟩, .receiver⟩

/-- The first parameter of `mix`, which takes two slots. -/
def mixLong : Local := ⟨"a", .prim .long, .ordinary⟩

/-- The second parameter of `mix`. -/
def mixInt : Local := ⟨"i", .prim .int, .ordinary⟩

/-- A local of `mix` that takes two slots. -/
def mixWide : Local := ⟨"w", .prim .double, .ordinary⟩

/-- A local of `mix` that takes one slot. -/
def mixNarrow : Local := ⟨"x", .prim .int, .ordinary⟩

/-- The body of `mix`. -/
def mixBody : Body where
  locals := [mixReceiver, mixLong, mixInt, mixWide, mixNarrow]
  stmts := [⟨⟨0⟩, none, .identity mixReceiver .this⟩,
    ⟨⟨1⟩, none, .identity mixLong (.parameter 0 (.prim .long))⟩,
    ⟨⟨2⟩, none, .identity mixInt (.parameter 1 (.prim .int))⟩,
    ⟨⟨3⟩, none, .assign (.var mixWide) (.cast (.var mixLong) (.prim .double))⟩,
    ⟨⟨4⟩, none, .assign (.var mixNarrow) (.operand (.var mixInt))⟩,
    ⟨⟨5⟩, none, .returnVoid⟩]
  flow := ⟨[⟨⟨0⟩, [⟨0⟩, ⟨1⟩, ⟨2⟩, ⟨3⟩, ⟨4⟩, ⟨5⟩], [], []⟩]⟩

/-- A method that computes with values of one and of two slots. -/
def mix : Method :=
  ⟨"mix", [], [.prim .long, .prim .int], .void, [], some mixBody, none⟩

/-- Questions that leave a gap in front of a wide local and then close it. -/
def mixLookups : List Lookup :=
  [.declared mixWide, .resolve mixReceiver, .operand (.const .null), .declared mixNarrow]

/-- The parameters of `mix` are bound once each. -/
theorem binds_mixBody {k i : Nat} (h : mixBody.Binds k l i) :
    l = mixLong ∧ i = 0 ∨ l = mixInt ∧ i = 1 := by
  obtain ⟨s, t, hs, hkind⟩ := h
  have hmem := List.mem_of_getElem? hs
  simp only [mixBody, List.mem_cons, List.not_mem_nil, or_false] at hmem
  rcases hmem with rfl | rfl | rfl | rfl | rfl | rfl <;> cases hkind
  · exact .inl ⟨rfl, rfl⟩
  · exact .inr ⟨rfl, rfl⟩

/-- The receiver of `mix` is the only local that stands for it. -/
theorem eq_mixReceiver (h : DenotesReceiver mixBody l) (hl : l ∈ mixBody.locals) :
    l = mixReceiver := by
  rcases h with hrole | ⟨x, hx, hkind⟩
  · revert l
    decide
  · simp only [mixBody, List.mem_cons, List.not_mem_nil, or_false] at hx
    rcases hx with rfl | rfl | rfl | rfl | rfl | rfl <;> cases hkind
    rfl

/-- The questions about `mix` fit its arguments. -/
theorem fitting_mix : Fitting mix mixBody mixLookups where
  nonvoid := by decide
  once := by
    intro k k' l l' i _ h h'
    rcases binds_mixBody h with ⟨rfl, rfl⟩ | ⟨rfl, rfl⟩
    · rcases binds_mixBody h' with ⟨rfl, -⟩ | ⟨-, ⟨⟩⟩
      rfl
    · rcases binds_mixBody h' with ⟨-, ⟨⟩⟩ | ⟨rfl, -⟩
      rfl
  width := by
    intro k l i t h ht
    rcases binds_mixBody h with ⟨rfl, rfl⟩ | ⟨rfl, rfl⟩ <;> cases ht <;> rfl
  bound := by
    intro x hx l source hkind hl
    have hmem : l ∈ mixBody.locals := by
      simp only [mixBody, List.mem_cons, List.not_mem_nil, or_false] at hx
      rcases hx with rfl | rfl | rfl | rfl | rfl | rfl <;> cases hkind <;> decide
    rw [eq_mixReceiver hl hmem]
    rfl
  asked := by
    intro q hq l hlocal hl
    have hlocals : ∀ q ∈ mixLookups, ∀ l ∈ q.local?, l ∈ mixBody.locals := by decide
    rw [eq_mixReceiver hl (hlocals q hq l hlocal)]
    rfl
  static := nofun

/-- `disjoint_of_lookups` at a method where a local closes the gap in front of a wide one. -/
theorem mix_disjoint : ∃ start, ofMethod mix mixBody = .ok start ∧
    Fitting mix mixBody mixLookups ∧
    (mixLookups.foldl after start).binding? mixWide = some (.slot 5) ∧
    (mixLookups.foldl after start).binding? mixNarrow = some (.slot 4) ∧
    Disjoint (span mixWide 5) (span mixNarrow 4) ∧
    Disjoint (span mixNarrow 4) (Set.Ico 0 (argumentEnd mix)) := by
  refine ⟨_, rfl, fitting_mix, rfl, rfl, ?_⟩
  obtain ⟨hdisjoint, harguments⟩ := disjoint_of_lookups fitting_mix rfl
  refine ⟨hdisjoint _ _ _ _ (by decide) ?_ rfl rfl, harguments _ _ ?_ ?_ rfl⟩
  · exact fun h => absurd (eq_mixReceiver h.1 (by decide)) (by decide)
  · exact fun h => absurd (eq_mixReceiver h (by decide)) (by decide)
  · intro k i _ h
    rcases binds_mixBody h with ⟨h, -⟩ | ⟨h, -⟩ <;> exact absurd h (by decide)

end Mix

end Slots

end BytecodeLowering.Lowering
