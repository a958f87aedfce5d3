import BytecodeLowering.Ir.Class

/-!
# Nested constructions

Statements that make objects and call their constructors, the latest object first.

* `Construction`: an object whose constructor is still to be called.
* `StmtKind.opens?`, `StmtKind.closes?`, `StmtKind.IsApart`: the statements that open and close a
  construction, and those that have nothing to do with any.
* `StmtKind.call?`: the call that a statement makes.
* `StmtKind.nest`, `Nests`: statements each of which closes only the construction opened last; what
  is open in front of them may have more below it (`Nests.below`).
* `Pairs`, `Nests.exists_pairs`: a statement that closes a construction, and the one that opened it.
* `WellNested`, `Unbranched`: the statements of a method that closes all that it opens, and that
  runs from its first statement to its last one.
-/

namespace BytecodeLowering.Ir

/-- An object whose constructor is still to be called. -/
inductive Construction where
  /-- A new object that is to be assigned to a local. -/
  | object (l : Local)
  /-- The receiver of a constructor, which a local stands for. -/
  | receiver (l : Local)
  deriving DecidableEq, Repr

namespace Construction

/-- The local whose constructor call completes the object. -/
def base : Construction → Local
  | object l | receiver l => l

/-- Whether the object is the receiver. -/
def isReceiver : Construction → Bool
  | object _ => false
  | receiver _ => true

end Construction

namespace StmtKind

/-- The construction that a statement of a method opens. -/
def opens? (m : Method) : StmtKind → Option Construction
  | assign (.var l) (.new _) => some (.object l)
  | identity l .this => if m.isStatic || !m.isConstructor then none else some (.receiver l)
  | _ => none

/-- The local whose constructor a statement calls. -/
def closes? : StmtKind → Option Local
  | invoke (.special base m _) => if m.isConstructor then some base else none
  | _ => none

/-- The call that a statement makes. -/
def call? : StmtKind → Option Invocation
  | invoke call | assign _ (.invoke call) => some call
  | _ => none

/-- Whether a statement assigns the result of a constructor call, which has none. -/
def isStray : StmtKind → Bool
  | assign _ (.invoke (.special _ m _)) => m.isConstructor
  | _ => false

/-- A statement of a method that has nothing to do with constructions. -/
structure IsApart (m : Method) (k : StmtKind) : Prop where
  /-- It opens none. -/
  opens : k.opens? m = none
  /-- It closes none. -/
  closes : k.closes? = none
  /-- It assigns no result of a constructor call. -/
  stray : k.isStray = false

/-- The constructions that are open behind a statement, the latest one first. A constructor may be
called only for the latest one. -/
def nest (m : Method) (opened : List Construction) (k : StmtKind) : Option (List Construction) :=
  match k.opens? m, k.closes?, opened with
  | some c, _, _ => some (c :: opened)
  | none, some l, c :: rest => if c.base = l then some rest else none
  | none, some _, [] => none
  | none, none, _ => if k.isStray then none else some opened

variable {m : Method} {k : StmtKind} {c : Construction} {opened opened' : List Construction}

/-- No statement both opens and closes a construction. -/
theorem opens?_of_closes? {l : Local} (h : k.closes? = some l) : k.opens? m = none := by
  cases k <;> first | rfl | cases h

/-- A statement opens a construction, closes the latest one, or has nothing to do with any. -/
theorem nest_eq_some_iff : k.nest m opened = some opened' ↔
    (∃ c, k.opens? m = some c ∧ opened' = c :: opened) ∨
      (∃ c, k.closes? = some c.base ∧ opened = c :: opened') ∨
        k.IsApart m ∧ opened = opened' := by
  constructor
  -- Every way to match that gives a list is one of the three, and the guards say which.
  · intro h
    unfold nest at h
    split at h
    · rename_i c hopens
      cases h
      exact .inl ⟨c, hopens, rfl⟩
    · rename_i l c rest hopens hcloses
      split at h
      · rename_i hbase
        cases h
        exact .inr (.inl ⟨c, hbase ▸ hcloses, rfl⟩)
      · cases h
    · cases h
    · rename_i hopens hcloses
      split at h
      · cases h
      · rename_i hstray
        cases h
        exact .inr (.inr ⟨⟨hopens, hcloses, by simpa using hstray⟩, rfl⟩)
  · rintro (⟨c, hopens, rfl⟩ | ⟨c, hcloses, rfl⟩ | ⟨h, rfl⟩)
    · simp only [nest, hopens]
    · simp only [nest, opens?_of_closes? hcloses, hcloses, if_pos]
    · simp [nest, h.opens, h.closes, h.stray]

/-- Other constructions may be open below. -/
theorem nest_below (h : k.nest m opened = some opened') (rest : List Construction) :
    k.nest m (opened ++ rest) = some (opened' ++ rest) := by
  rw [nest_eq_some_iff] at h ⊢
  rcases h with ⟨c, hopens, rfl⟩ | ⟨c, hcloses, rfl⟩ | ⟨hapart, rfl⟩
  · exact .inl ⟨c, hopens, rfl⟩
  · exact .inr (.inl ⟨c, hcloses, rfl⟩)
  · exact .inr (.inr ⟨hapart, rfl⟩)

end StmtKind

/-- Statements each of which closes only the construction opened last, with the constructions that
are open in front of them and behind them. -/
def Nests (m : Method) (opened : List Construction) (stmts : List Stmt)
    (opened' : List Construction) : Prop :=
  stmts.foldlM (fun opened s => s.kind.nest m opened) opened = some opened'

instance (m : Method) (opened : List Construction) (stmts : List Stmt)
    (opened' : List Construction) : Decidable (Nests m opened stmts opened') :=
  inferInstanceAs (Decidable (_ = _))

namespace Nests

variable {m : Method} {s : Stmt} {stmts stmts' : List Stmt} {c : Construction}
  {opened opened' : List Construction}

@[simp]
theorem nil_iff : Nests m opened [] opened' ↔ opened = opened' := by
  simp [Nests]

theorem cons_iff : Nests m opened (s :: stmts) opened' ↔
    ∃ between, s.kind.nest m opened = some between ∧ Nests m between stmts opened' := by
  simp [Nests, Option.bind_eq_some_iff]

theorem append_iff : Nests m opened (stmts ++ stmts') opened' ↔
    ∃ between, Nests m opened stmts between ∧ Nests m between stmts' opened' := by
  simp [Nests, Option.bind_eq_some_iff]

theorem singleton_iff : Nests m opened [s] opened' ↔ s.kind.nest m opened = some opened' := by
  simp [cons_iff]

/-- Other constructions may be open below. -/
theorem below (h : Nests m opened stmts opened') (rest : List Construction) :
    Nests m (opened ++ rest) stmts (opened' ++ rest) := by
  induction stmts generalizing opened with
  | nil => rw [nil_iff.1 h, nil_iff]
  | cons s stmts ih =>
    obtain ⟨between, hs, hstmts⟩ := cons_iff.1 h
    exact cons_iff.2 ⟨_, StmtKind.nest_below hs rest, ih hstmts⟩

/-- The construction opened last was opened by some statement, and those behind it closed all that
they opened. -/
theorem exists_opening (h : Nests m [] stmts (c :: opened)) :
    ∃ front s back, stmts = front ++ s :: back ∧ s.kind.opens? m = some c ∧
      Nests m [] front opened ∧ Nests m [] back [] := by
  -- By induction on the number of statements. The last of them decides: it opens the construction,
  -- closes one that was opened behind it, or changes nothing.
  induction hn : stmts.length using Nat.strongRecOn generalizing stmts c opened with
  | _ n ih =>
    subst hn
    rcases List.eq_nil_or_concat stmts with rfl | ⟨init, t, rfl⟩
    · cases nil_iff.1 h
    rw [List.concat_eq_append] at h ih ⊢
    obtain ⟨between, hinit, ht⟩ := append_iff.1 h
    have hlt : init.length < (init ++ [t]).length := by simp
    rw [singleton_iff, StmtKind.nest_eq_some_iff] at ht
    rcases ht with ⟨c', hopens, heq⟩ | ⟨c', hcloses, rfl⟩ | ⟨hapart, rfl⟩
    · cases heq
      exact ⟨init, t, [], rfl, hopens, hinit, nil_iff.2 rfl⟩
    · -- What the last statement closes was opened behind the construction that is looked for.
      obtain ⟨front', s', back', rfl, hopens', hfront', hback'⟩ := ih _ hlt hinit rfl
      obtain ⟨front, s, back, rfl, hopens, hfront, hback⟩ := ih _ (by simp) hfront' rfl
      refine ⟨front, s, back ++ (s' :: back' ++ [t]), by simp, hopens, hfront, ?_⟩
      refine append_iff.2 ⟨[], hback, append_iff.2 ⟨[c'], cons_iff.2 ⟨[c'], ?_, hback'.below [c']⟩,
        singleton_iff.2 ?_⟩⟩
      · exact StmtKind.nest_eq_some_iff.2 (.inl ⟨c', hopens', rfl⟩)
      · exact StmtKind.nest_eq_some_iff.2 (.inr (.inl ⟨c', hcloses, rfl⟩))
    · obtain ⟨front, s, back, rfl, hopens, hfront, hback⟩ := ih _ hlt hinit rfl
      refine ⟨front, s, back ++ [t], by simp, hopens, hfront, append_iff.2 ⟨[], hback, ?_⟩⟩
      exact singleton_iff.2 (StmtKind.nest_eq_some_iff.2 (.inr (.inr ⟨hapart, rfl⟩)))

end Nests

/-- The statement at a place opens a construction, the one at a later place closes it, and those
between them close all that they open. -/
def Pairs (m : Method) (stmts : List Stmt) (i j : Nat) (c : Construction) : Prop :=
  ∃ front s between s' back, stmts = front ++ s :: (between ++ s' :: back) ∧ i = front.length ∧
    j = front.length + 1 + between.length ∧ s.kind.opens? m = some c ∧
      s'.kind.closes? = some c.base ∧ Nests m [] between []

/-- Every constructor call among nested statements closes a construction that one of them opened. -/
theorem Nests.exists_pairs {m : Method} {stmts : List Stmt} {opened : List Construction}
    (h : Nests m [] stmts opened) {j : Nat} {s : Stmt} (hj : stmts[j]? = some s) {l : Local}
    (hl : s.kind.closes? = some l) : ∃ i c, Pairs m stmts i j c ∧ c.base = l := by
  obtain ⟨hlt, rfl⟩ := List.getElem?_eq_some_iff.1 hj
  have hsplit : stmts = stmts.take j ++ stmts[j] :: stmts.drop (j + 1) := by simp
  rw [hsplit] at h
  obtain ⟨inner, hfront, hrest⟩ := append_iff.1 h
  obtain ⟨outer, hs, -⟩ := cons_iff.1 hrest
  rcases StmtKind.nest_eq_some_iff.1 hs with ⟨c, hopens, -⟩ | ⟨c, hcloses, rfl⟩ | ⟨hapart, -⟩
  · rw [StmtKind.opens?_of_closes? hl] at hopens
    cases hopens
  -- What is closed is open in front of the call, so that a statement there opened it.
  · obtain ⟨front, s', between, htake, hopens, -, hbetween⟩ := hfront.exists_opening
    have hlength := congrArg List.length htake
    rw [List.length_take_of_le (Nat.le_of_lt hlt), List.length_append, List.length_cons] at hlength
    refine ⟨front.length, c, ⟨front, s', between, stmts[j], stmts.drop (j + 1), ?_, rfl, ?_, hopens,
      hcloses, hbetween⟩, Option.some.inj (hcloses.symm.trans hl)⟩
    · rw [← List.cons_append, ← List.append_assoc, ← htake]
      exact hsplit
    · omega
  · rw [hapart.closes] at hl
    cases hl

/-- The statements of a method that closes all constructions that it opens. The receiver of a
constructor is taken by its first statement only. -/
structure WellNested (m : Method) (stmts : List Stmt) : Prop where
  /-- The statements are nested, and nothing is open behind them. -/
  nests : Nests m [] stmts []
  /-- The receiver is taken at the start. -/
  leading : ∀ s ∈ stmts.tail, ∀ c ∈ s.kind.opens? m, c.isReceiver = false

/-- Statements that are run from the first one to the last one. -/
structure Unbranched (stmts : List Stmt) : Prop where
  /-- None of them branches. -/
  targets : ∀ s ∈ stmts, s.kind.targets = []
  /-- Only the last one may leave the method. -/
  inner : ∀ s ∈ stmts.dropLast, s.kind.endsBlock = false

end BytecodeLowering.Ir
