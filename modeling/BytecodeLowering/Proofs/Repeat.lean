import BytecodeLowering.Repeat
import Mathlib.Data.List.Nodup
import Mathlib.Data.List.Duplicate

/-!
# Lists without repeats

* `firstRepeat?_eq_none_iff`: the search for a repeated value fails on the lists without one.
* `two_le_count_of_firstRepeat?`: it finds a value that stands in the list twice.
* `find?_eq_some_of_unique`, `find?_eq_map_of_unique`: a search finds the one element that passes
  its test, also among changed elements.
* `nodup_eraseDups`, `pairwise_eraseDups`: a list whose repeats were taken out has none, and keeps
  the order in which its values come up first.
* `eraseDups_map`, `eraseDups_flatten`: taking out repeats element by element and piece by piece.
* `index_unique`: pieces of a list without repeats share no element.
-/

namespace BytecodeLowering

variable {α : Type}

/-- No value is repeated iff the values are distinct and none was seen before. -/
theorem firstRepeatFrom?_eq_none_iff [DecidableEq α] {seen xs : List α} :
    firstRepeatFrom? seen xs = none ↔ xs.Nodup ∧ ∀ x ∈ xs, x ∉ seen := by
  induction xs generalizing seen with
  | nil => simp [firstRepeatFrom?]
  | cons x xs ih =>
    rw [firstRepeatFrom?]
    by_cases hx : x ∈ seen
    · simp [hx]
    · rw [if_neg hx, ih, List.nodup_cons]
      constructor
      · rintro ⟨hnodup, hseen⟩
        refine ⟨⟨fun hmem => hseen x hmem List.mem_cons_self, hnodup⟩, fun y hy => ?_⟩
        rcases List.mem_cons.1 hy with rfl | hy
        · exact hx
        · exact fun hmem => hseen y hy (List.mem_cons_of_mem _ hmem)
      · rintro ⟨⟨hnotMem, hnodup⟩, hseen⟩
        refine ⟨hnodup, fun y hy hmem => ?_⟩
        rcases List.mem_cons.1 hmem with rfl | hmem
        · exact hnotMem hy
        · exact hseen y (List.mem_cons_of_mem _ hy) hmem

/-- No value of a list is repeated iff its values are distinct. -/
theorem firstRepeat?_eq_none_iff [DecidableEq α] {xs : List α} :
    firstRepeat? xs = none ↔ xs.Nodup := by
  rw [firstRepeat?, firstRepeatFrom?_eq_none_iff]
  simp

/-- A repeated value was seen before, or stands in the list twice. -/
theorem duplicate_of_firstRepeatFrom? [DecidableEq α] {seen xs : List α} {x : α}
    (h : firstRepeatFrom? seen xs = some x) : x ∈ seen ∧ x ∈ xs ∨ List.Duplicate x xs := by
  induction xs generalizing seen with
  | nil => cases h
  | cons y ys ih =>
    rw [firstRepeatFrom?] at h
    split at h
    · rename_i hseen
      cases h
      exact .inl ⟨hseen, List.mem_cons_self⟩
    · rcases ih h with ⟨hseen, hmem⟩ | hdup
      · rcases List.mem_cons.1 hseen with rfl | hseen
        · exact .inr hmem.duplicate_cons_self
        · exact .inl ⟨hseen, List.mem_cons_of_mem _ hmem⟩
      · exact .inr (hdup.duplicate_cons _)

/-- The value that the search for a repeated one finds stands in the list twice. -/
theorem two_le_count_of_firstRepeat? [DecidableEq α] {xs : List α} {x : α}
    (h : firstRepeat? xs = some x) : 2 ≤ xs.count x := by
  rcases duplicate_of_firstRepeatFrom? h with ⟨⟨⟩, -⟩ | hdup
  exact List.duplicate_iff_two_le_count.1 hdup

/-- A search finds the one element that passes its test. -/
theorem find?_eq_some_of_unique {xs : List α} {p : α → Bool} {x : α} (hmem : x ∈ xs)
    (hx : p x = true) (hunique : ∀ y ∈ xs, p y = true → y = x) : xs.find? p = some x := by
  obtain ⟨y, hy⟩ := Option.isSome_iff_exists.1 (List.find?_isSome.2 ⟨x, hmem, hx⟩)
  rw [hy, hunique y (List.mem_of_find?_eq_some hy) (List.find?_some hy)]

/-- A search among changed elements finds the changed element that a search finds, if no more than
one passes the test. -/
theorem find?_eq_map_of_unique {β : Type} {f : α → β} {xs : List α} {ys : List β} {p : α → Bool}
    {q : β → Bool} (hmem : ∀ b, b ∈ ys ↔ ∃ a ∈ xs, f a = b) (hq : ∀ a ∈ xs, q (f a) = p a)
    (hunique : ∀ a ∈ xs, ∀ a' ∈ xs, p a → p a' → a = a') : ys.find? q = (xs.find? p).map f := by
  cases hfind : xs.find? p with
  | none =>
    -- Where no element passes the test, no changed one does.
    rw [List.find?_eq_none] at hfind
    refine List.find?_eq_none.2 fun b hb => ?_
    obtain ⟨a, ha, rfl⟩ := (hmem b).1 hb
    rw [hq a ha]
    exact hfind a ha
  | some a =>
    have ha := List.mem_of_find?_eq_some hfind
    have hpa := List.find?_some hfind
    refine find?_eq_some_of_unique ((hmem _).2 ⟨a, ha, rfl⟩) (by rwa [hq a ha]) fun b hb hqb => ?_
    obtain ⟨a', ha', rfl⟩ := (hmem b).1 hb
    rw [hunique a' ha' a ha (hq a' ha' ▸ hqb) hpa]

section EraseDups

variable {β : Type} [DecidableEq α] [DecidableEq β]

/-- Induction that goes on, behind the head of a list, with the values that differ from it. -/
@[elab_as_elim]
theorem distinct_induction {P : List α → Prop} (nil : P [])
    (cons : ∀ x xs, P (xs.filter fun y => !y == x) → P (x :: xs)) (xs : List α) : P xs := by
  induction hn : xs.length using Nat.strongRecOn generalizing xs with
  | ind n ih =>
    cases xs with
    | nil => exact nil
    | cons x xs =>
      refine cons x xs (ih _ ?_ _ rfl)
      have hle := List.length_filter_le (fun y => !y == x) xs
      rw [List.length_cons] at hn
      omega

/-- A list whose repeats were taken out has none. -/
theorem nodup_eraseDups (xs : List α) : xs.eraseDups.Nodup := by
  -- The value in front was filtered out of what follows it.
  induction xs using distinct_induction with
  | nil => exact List.nodup_nil
  | cons x xs ih =>
    rw [List.eraseDups_cons, List.nodup_cons]
    exact ⟨by simp [List.mem_eraseDups], ih⟩

/-- Without repeats, values stand in the order in which they come up first: a value comes up in
front of all that stand behind it then. -/
theorem pairwise_eraseDups (xs : List α) :
    xs.eraseDups.Pairwise fun x y => ∃ front rest, xs = front ++ x :: rest ∧ y ∉ front ++ [x] := by
  induction xs using distinct_induction with
  | nil => exact .nil
  | cons x xs ih =>
    -- What follows the value in front was filtered, so that it differs from it.
    have hne : ∀ y ∈ (xs.filter fun y => !y == x).eraseDups, y ≠ x := by
      intro y hy
      simpa using (List.mem_filter.1 (List.mem_eraseDups.1 hy)).2
    rw [List.eraseDups_cons, List.pairwise_cons]
    refine ⟨fun y hy => ⟨[], xs, rfl, by simpa using hne y hy⟩, ih.imp_of_mem ?_⟩
    rintro y z - hz ⟨front, rest, heq, hnot⟩
    -- The values that were left out in front of the first one are not the second one either.
    obtain ⟨front', _, rfl, rfl, hrest⟩ := List.filter_eq_append_iff.1 heq
    obtain ⟨skipped, rest', rfl, hskipped, -, -⟩ := List.filter_eq_cons_iff.1 hrest
    have hzx := hne z hz
    refine ⟨x :: front' ++ skipped, rest', by simp, fun hmem => ?_⟩
    have hz' : z ∈ front' ∨ z ∈ skipped ∨ z = y := by simpa [hzx] using hmem
    rcases hz' with hz' | hz' | rfl
    · exact hnot (List.mem_append_left _ (List.mem_filter.2 ⟨hz', by simpa using hzx⟩))
    · exact hskipped z hz' (by simpa using hzx)
    · exact hnot (List.mem_append_right _ List.mem_cons_self)

/-- Repeats may be taken out in front of a map that tells the values apart, or behind it. -/
theorem eraseDups_map {f : α → β} {xs : List α} (hf : ∀ x ∈ xs, ∀ y ∈ xs, f x = f y → x = y) :
    (xs.map f).eraseDups = xs.eraseDups.map f := by
  induction xs using distinct_induction with
  | nil => rfl
  | cons x xs ih =>
    have hfilter : ((xs.map f).filter fun y => !y == f x) =
        (xs.filter fun y => !y == x).map f := by
      rw [List.filter_map]
      -- The two filters agree on the values that follow, as the map tells them from the first one.
      refine congrArg _ (List.filter_congr fun y hy => ?_)
      have hiff : f y = f x ↔ y = x :=
        ⟨hf y (List.mem_cons_of_mem _ hy) x List.mem_cons_self, congrArg f⟩
      simp [hiff, Bool.beq_eq_decide_eq]
    rw [List.map_cons, List.eraseDups_cons, List.eraseDups_cons, List.map_cons, hfilter, ih]
    intro y hy z hz
    exact hf y (List.mem_cons_of_mem _ (List.mem_of_mem_filter hy)) z
      (List.mem_cons_of_mem _ (List.mem_of_mem_filter hz))

/-- A value that comes up once or more in front of others is kept once. -/
theorem eraseDups_replicate_append {n : Nat} {x : α} {xs : List α} (hn : n ≠ 0) (hx : x ∉ xs) :
    (List.replicate n x ++ xs).eraseDups = x :: xs.eraseDups := by
  obtain ⟨k, rfl⟩ := Nat.exists_eq_succ_of_ne_zero hn
  have hfresh : xs.removeAll (List.replicate (k + 1) x) = xs := by
    refine List.filter_eq_self.2 fun y hy => ?_
    have hne : y ≠ x := fun heq => hx (heq ▸ hy)
    simp [hne]
  rw [List.eraseDups_append, hfresh, List.replicate_succ, List.eraseDups_cons]
  simp

/-- In pieces that share no value, repeats are taken out piece by piece. -/
theorem eraseDups_flatten {xss : List (List α)} (h : xss.Pairwise List.Disjoint) :
    xss.flatten.eraseDups = (xss.map List.eraseDups).flatten := by
  induction xss with
  | nil => rfl
  | cons xs xss ih =>
    obtain ⟨hxs, hxss⟩ := List.pairwise_cons.1 h
    have hfresh : xss.flatten.removeAll xs = xss.flatten := by
      refine List.filter_eq_self.2 fun x hx => ?_
      obtain ⟨ys, hys, hx⟩ := List.mem_flatten.1 hx
      have hnot : x ∉ xs := fun hmem => hxs ys hys hmem hx
      simpa using hnot
    rw [List.flatten_cons, List.eraseDups_append, hfresh, ih hxss, List.map_cons,
      List.flatten_cons]

end EraseDups

/-- An element of a list without repeats is in one piece of it only. -/
theorem index_unique {xss : List (List α)} (h : xss.flatten.Nodup) {j k : Nat} {xs ys : List α}
    {x : α} (hk : xss[k]? = some xs) (hj : xss[j]? = some ys) (hx : x ∈ xs) (hy : x ∈ ys) :
    j = k := by
  -- Two pieces share no element, whichever of them stands first.
  have hdisjoint := List.pairwise_iff_getElem.1 (List.nodup_flatten.1 h).2
  obtain ⟨hklt, rfl⟩ := List.getElem?_eq_some_iff.1 hk
  obtain ⟨hjlt, rfl⟩ := List.getElem?_eq_some_iff.1 hj
  rcases Nat.lt_trichotomy j k with hlt | heq | hlt
  · exact absurd hx (hdisjoint j k hjlt hklt hlt hy)
  · exact heq
  · exact absurd hy (hdisjoint k j hklt hjlt hlt hx)

end BytecodeLowering
