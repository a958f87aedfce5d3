import BytecodeLowering.Json.Decode
import BytecodeLowering.Proofs.Result
import Mathlib.Algebra.GroupWithZero.Nat

/-!
# Reading what was written

Readers of JSON values that give back what was written for them. A value may be written with more
containers than it was read from, since what was left out is written too, so that it is read
wherever its own containers have room.

* `Json.depth`: how many containers a value nests.
* `Decoder.Yields`, `Decoder.Reads`: a result that a reader may have, and the one that it has for a
  value with room for all its containers.
* `Fields.Yields`, `Fields.Reads`: the same for the fields of a record.

For each way to put readers together, `of_..` tells where its results come from, and `Reads..` what
it reads.
-/

namespace BytecodeLowering

/-- The numeral of an integer has its value. -/
theorem Numeral.toInt?_ofInt (i : Int) : (ofInt i).toInt? = some i := by
  -- The digits of the numeral are those of the absolute value.
  have hdigits : ofDigits (ofInt i).whole = i.natAbs :=
    Nat.ofDigitChars_eq_foldl.symm.trans (Nat.ofDigitChars_toDigits (by decide) (by decide))
  have hinteger : (ofInt i).isInteger = true := rfl
  have hnegative : (ofInt i).negative = decide (i < 0) := rfl
  rw [toInt?, hdigits, hinteger, hnegative]
  by_cases hi : i < 0
  · have hne : i.natAbs ≠ 0 := by omega
    have hneg : -(i.natAbs : Int) = i := by omega
    simp only [hi, hne, decide_true, Bool.not_true, Bool.false_eq_true, if_false, if_true, hneg]
  · have hpos : (i.natAbs : Int) = i := by omega
    simp only [hi, decide_false, Bool.not_true, Bool.false_eq_true, if_false, hpos]

namespace Json

mutual

/-- The number of containers that a value nests. -/
def depth : Json → Nat
  | .array items => depthItems items + 1
  | .object members => depthMembers members + 1
  | _ => 0

/-- The greatest `depth` in a sequence. -/
def depthItems : List Json → Nat
  | [] => 0
  | j :: js => max j.depth (depthItems js)

/-- The greatest `depth` among members. -/
def depthMembers : List (Option String × Json) → Nat
  | [] => 0
  | (_, j) :: ms => max j.depth (depthMembers ms)

end

/-- The values of a sequence nest no more than the sequence has. -/
theorem depth_le_depthItems {j : Json} {js : List Json} (h : j ∈ js) : j.depth ≤ depthItems js := by
  induction js with
  | nil => cases h
  | cons j' js ih =>
    rw [depthItems]
    rcases List.mem_cons.1 h with rfl | h
    · exact Nat.le_max_left _ _
    · exact Nat.le_trans (ih h) (Nat.le_max_right _ _)

/-- Members nest no more than all of them have. -/
theorem depth_le_depthMembers {m : Option String × Json} {ms : List (Option String × Json)}
    (h : m ∈ ms) : m.2.depth ≤ depthMembers ms := by
  induction ms with
  | nil => cases h
  | cons m' ms ih =>
    rw [depthMembers]
    rcases List.mem_cons.1 h with rfl | h
    · exact Nat.le_max_left _ _
    · exact Nat.le_trans (ih h) (Nat.le_max_right _ _)

namespace Decoder

variable {ε α β : Type}

/-- A result that a reader has for some value. -/
def Yields (d : Decoder ε α) (x : α) : Prop :=
  ∃ room j, d room j = .ok x

/-- A reader has this result for a value wherever there is room for its containers. -/
def Reads (d : Decoder ε α) (j : Json) (x : α) : Prop :=
  ∀ room, j.depth ≤ room → d room j = .ok x

variable {d : Decoder ε α} {j : Json} {x : α}

/-- A result that nothing may follow is the one in front. -/
theorem eq_of_isEmpty {γ : Type} {rest : List γ} {x' : α}
    (h : (if rest.isEmpty then pure x' else .error .shape : Except (Fault ε) α) = .ok x) :
    x' = x := by
  split at h <;> cases h
  rfl

section Parts

/-- A converted result comes from one that was not. -/
theorem Yields.of_map {f : α → β} {y : β} (h : (d.map f).Yields y) : ∃ x, d.Yields x ∧ f x = y := by
  obtain ⟨room, j, h⟩ := h
  obtain ⟨x, hx, hy⟩ := map_eq_ok_iff.1 h
  exact ⟨x, ⟨room, j, hx⟩, hy⟩

theorem Reads.map (h : d.Reads j x) (f : α → β) : (d.map f).Reads j (f x) := fun room hroom => by
  rw [Decoder.map, h room hroom]
  rfl

/-- A result whose conversion may fail comes from one that it did not fail for. -/
theorem Yields.of_refine {f : α → Except ε β} {y : β} (h : (d.refine f).Yields y) :
    ∃ x, d.Yields x ∧ f x = .ok y := by
  obtain ⟨room, j, h⟩ := h
  obtain ⟨x, hx, h⟩ := bind_eq_ok_iff.1 h
  refine ⟨x, ⟨room, j, hx⟩, ?_⟩
  cases hf : f x with
  | error e => simp [hf] at h
  | ok y' =>
    rw [hf] at h
    cases h
    rfl

theorem Reads.refine {f : α → Except ε β} {y : β} (h : d.Reads j x) (hf : f x = .ok y) :
    (d.refine f).Reads j y := fun room hroom =>
  bind_eq_ok_iff.2 ⟨x, h room hroom, by rw [hf]; rfl⟩

theorem reads_text (s : String) : (text : Decoder ε String).Reads (.ofString s) s :=
  fun _ _ => rfl

theorem reads_bool (b : Bool) : (bool : Decoder ε Bool).Reads (.bool b) b :=
  fun _ _ => rfl

end Parts

section Integers

variable {low high i : Int}

/-- An integer that was read is in range. -/
theorem Yields.of_intIn (h : (intIn low high : Decoder ε Int).Yields i) : low ≤ i ∧ i ≤ high := by
  obtain ⟨room, j, h⟩ := h
  -- Of the ways to read a number, only the one in range has a result.
  unfold intIn at h
  split at h
  · split at h
    · split at h
      · cases h
        assumption
      · cases h
    · cases h
  · cases h

theorem reads_intIn (h : low ≤ i ∧ i ≤ high) :
    (intIn low high : Decoder ε Int).Reads (.ofInt i) i := fun room _ => by
  simp only [ofInt, intIn, Numeral.toInt?_ofInt, h, and_self, if_true]

/-- A natural number that was read has no more than the given number of bits. -/
theorem Yields.of_natOfBits {bits n : Nat} (h : (natOfBits bits : Decoder ε Nat).Yields n) :
    n < 2 ^ bits := by
  obtain ⟨room, j, h⟩ := h
  obtain ⟨i, hi, rfl⟩ := map_eq_ok_iff.1 h
  have hrange := Yields.of_intIn ⟨room, j, hi⟩
  have hpos : 0 < Nat.pow 2 bits := Nat.pow_pos (by decide)
  change i.toNat < Nat.pow 2 bits
  omega

theorem reads_natOfBits {bits n : Nat} (h : n < 2 ^ bits) :
    (natOfBits bits : Decoder ε Nat).Reads (.ofNat n) n := fun room hroom => by
  have hrange : (0 : Int) ≤ n ∧ (n : Int) ≤ (Nat.pow 2 bits - 1 : Nat) := by
    change n < Nat.pow 2 bits at h
    omega
  have hread := reads_intIn (ε := ε) hrange room hroom
  rw [natOfBits]
  exact map_eq_ok_iff.2 ⟨n, hread, rfl⟩

theorem reads_int32 (v : Int32) : (int32 : Decoder ε Int32).Reads (.ofInt v.toInt) v :=
  fun room hroom => by
    have hread := reads_intIn (ε := ε) ⟨Int32.minValue_le_toInt v, Int32.toInt_le v⟩ room hroom
    rw [int32]
    exact map_eq_ok_iff.2 ⟨v.toInt, hread, Int32.ofInt_toInt v⟩

theorem reads_int64 (v : Int64) : (int64 : Decoder ε Int64).Reads (.ofInt v.toInt) v :=
  fun room hroom => by
    have hread := reads_intIn (ε := ε) ⟨Int64.minValue_le_toInt v, Int64.toInt_le v⟩ room hroom
    rw [int64]
    exact map_eq_ok_iff.2 ⟨v.toInt, hread, Int64.ofInt_toInt v⟩

end Integers

section Containers

/-- A value that may be absent comes from one that is there. -/
theorem Yields.of_optional {o : Option α} (h : d.optional.Yields o) : ∀ x ∈ o, d.Yields x := by
  obtain ⟨room, j, h⟩ := h
  rintro x hx
  obtain rfl := Option.mem_def.1 hx
  unfold optional at h
  split at h
  · cases h
  · obtain ⟨x', hx', h⟩ := map_eq_ok_iff.1 h
    cases h
    exact ⟨room, j, hx'⟩

theorem reads_some (hne : j ≠ .null) (h : d.Reads j x) : d.optional.Reads j (some x) := by
  intro room hroom
  have hread : (d room j).map some = .ok (some x) := map_eq_ok_iff.2 ⟨x, h room hroom, rfl⟩
  unfold optional
  split
  · exact absurd rfl hne
  · exact hread

theorem reads_optional {write : α → Json} {o : Option α}
    (h : ∀ x ∈ o, write x ≠ .null ∧ d.Reads (write x) x) :
    d.optional.Reads (ofOption write o) o := by
  cases o with
  | none => exact fun _ _ => rfl
  | some x => exact reads_some (h x rfl).1 (h x rfl).2

theorem items_eq_ok_iff {room : Nat} {js : List Json} {xs : List α} :
    items d room js = .ok xs ↔ List.Forall₂ (fun j x => d room j = .ok x) js xs := by
  induction js generalizing xs with
  | nil => cases xs <;> simp [items]
  | cons j js ih =>
    rw [items, bind_eq_ok_iff]
    constructor
    · rintro ⟨x, hx, h⟩
      obtain ⟨xs', hxs, h⟩ := bind_eq_ok_iff.1 h
      cases h
      exact .cons hx (ih.1 hxs)
    · rintro (_ | ⟨hx, hxs⟩)
      exact ⟨_, hx, bind_eq_ok_iff.2 ⟨_, ih.2 hxs, rfl⟩⟩

/-- The values of a list are read one by one. -/
theorem Yields.of_list {xs : List α} (h : d.list.Yields xs) : ∀ x ∈ xs, d.Yields x := by
  obtain ⟨room, j, h⟩ := h
  unfold list at h
  split at h
  · intro x hx
    obtain ⟨j', -, hj'⟩ := exists_left_of_mem (items_eq_ok_iff.1 h) hx
    exact ⟨_, j', hj'⟩
  · cases h

theorem reads_list {write : α → Json} {xs : List α} (h : ∀ x ∈ xs, d.Reads (write x) x) :
    d.list.Reads (ofList write xs) xs := by
  intro room hroom
  rw [ofList, depth] at hroom
  obtain ⟨room, rfl⟩ := Nat.exists_eq_add_of_le' (Nat.le_of_add_left_le hroom)
  -- The list itself takes one container, so that the values in it have the others.
  have hitems : ∀ j ∈ xs.map write, j.depth ≤ room := fun j hj =>
    Nat.le_trans (depth_le_depthItems hj) (Nat.le_of_add_le_add_right hroom)
  rw [ofList, list, items_eq_ok_iff, List.forall₂_map_left_iff, List.forall₂_same]
  exact fun x hx => h x hx room (hitems _ (List.mem_map_of_mem hx))

end Containers

section Alternatives

variable {word? : String → Option α} {payload? : String → Option (Decoder ε α)} {key : String}

/-- One of several alternatives is a word, or has a content that was read. -/
theorem Yields.of_choice (h : (choice word? payload?).Yields x) :
    (∃ s, word? s = some x) ∨ ∃ key d, payload? key = some d ∧ d.Yields x := by
  obtain ⟨room, j, h⟩ := h
  unfold choice at h
  split at h
  · rename_i s
    split at h
    · rename_i hs
      cases h
      exact .inl ⟨s, hs⟩
    · cases h
  · rename_i key j rest
    dsimp only at h
    split at h
    · rename_i x' hs
      split at h
      · exact .inl ⟨key, eq_of_isEmpty h ▸ hs⟩
      · cases h
    · rename_i d _ hd
      obtain ⟨x', hx', h⟩ := bind_eq_ok_iff.1 h
      exact .inr ⟨key, d, hd, _, j, eq_of_isEmpty h ▸ hx'⟩
    · cases h
  · cases h

theorem reads_word (h : word? key = some x) : (choice word? payload?).Reads (.ofString key) x :=
  fun room _ => by
    simp only [ofString, choice, h]

theorem reads_choice (hword : word? key = none) (hd : payload? key = some d) (h : d.Reads j x) :
    (choice word? payload?).Reads (.record [(key, j)]) x := by
  intro room hroom
  change max j.depth 0 + 1 ≤ room at hroom
  obtain ⟨room, rfl⟩ := Nat.exists_eq_add_of_le' (Nat.le_of_add_left_le hroom)
  have hread := h room (by omega)
  change choice word? payload? (room + 1) (.object [(some key, j)]) = .ok x
  simp only [choice, hword, hd, hread]
  rfl

/-- One of several alternatives that all carry something has a content that was read. -/
theorem Yields.of_payload (h : (choice (fun _ => none) payload?).Yields x) :
    ∃ key d, payload? key = some d ∧ d.Yields x :=
  h.of_choice.resolve_left fun ⟨_, hnone⟩ => by cases hnone

/-- One of several words is one of them. -/
theorem Yields.of_words (h : (words word? : Decoder ε α).Yields x) : ∃ s, word? s = some x :=
  h.of_choice.resolve_right fun ⟨_, _, hnone, _⟩ => by cases hnone

end Alternatives

end Decoder

namespace Fields

variable {ε α β : Type}

/-- A result that the fields of a record have for some members. -/
def Yields (fields : Fields ε α) (x : α) : Prop :=
  ∃ inOrder room ms, fields.read inOrder room ms = .ok x

/-- The members of a written record. -/
def written (ms : List (String × Json)) : Members :=
  numbered (ms.map fun (k, v) => (some k, v))

/-- The fields of a record have this result for members wherever there is room for the containers
of each. -/
def Reads (fields : Fields ε α) (ms : List (String × Json)) (x : α) : Prop :=
  ∀ room, (∀ m ∈ ms, m.2.depth ≤ room) → fields.read false room (written ms) = .ok x

variable {fields : Fields ε α} {d : Decoder ε α} {ms : List (String × Json)} {name : String}
  {j : Json} {x : α}

section Parts

theorem both_eq_ok_iff {f : Except (Nat × Fault ε) (α → β)} {x : Except (Nat × Fault ε) α} {y : β} :
    both f x = .ok y ↔ ∃ g, f = .ok g ∧ ∃ a, x = .ok a ∧ g a = y := by
  cases f <;> cases x <;> simp [both]

/-- A converted result comes from one that was not. -/
theorem Yields.of_map {f : α → β} {y : β} (h : (f <$> fields).Yields y) :
    ∃ x, fields.Yields x ∧ f x = y := by
  obtain ⟨inOrder, room, ms, h⟩ := h
  obtain ⟨x, hx, hy⟩ := map_eq_ok_iff.1 h
  exact ⟨x, ⟨inOrder, room, ms, hx⟩, hy⟩

theorem Reads.map (h : fields.Reads ms x) (f : α → β) : (f <$> fields).Reads ms (f x) :=
  fun room hroom => map_eq_ok_iff.2 ⟨x, h room hroom, rfl⟩

/-- The results of two readers together come from either of them. -/
theorem Yields.of_seq {first : Fields ε (α → β)} {y : β} (h : (first <*> fields).Yields y) :
    ∃ f, first.Yields f ∧ ∃ x, fields.Yields x ∧ f x = y := by
  obtain ⟨inOrder, room, ms, h⟩ := h
  obtain ⟨f, hf, x, hx, hy⟩ := both_eq_ok_iff.1 h
  exact ⟨f, ⟨inOrder, room, ms, hf⟩, x, ⟨inOrder, room, ms, hx⟩, hy⟩

theorem Reads.seq {first : Fields ε (α → β)} {f : α → β} (hf : first.Reads ms f)
    (hx : fields.Reads ms x) : (first <*> fields).Reads ms (f x) := fun room hroom =>
  both_eq_ok_iff.2 ⟨f, hf room hroom, x, hx room hroom, rfl⟩

end Parts

section Members

/-- A member is found by its name, whatever number the first one has. -/
theorem find?_zipIdx (ms : List (String × Json)) (n : Nat) (name : String) :
    (find? name (((ms.map fun (k, v) => (some k, v)).zipIdx n).map fun (m, i) => (i, m))).map
      Prod.snd = ms.lookup name := by
  induction ms generalizing n with
  | nil => rfl
  | cons m ms ih =>
    obtain ⟨k, v⟩ := m
    rw [List.map_cons, List.zipIdx_cons, List.map_cons, find?, List.find?_cons]
    by_cases hk : k = name
    · subst hk
      simp
    · have hname : (name == k) = false := by simpa using fun h => hk h.symm
      have hmember : (some k == some name) = false := by simpa using hk
      rw [hmember, List.lookup_cons, hname]
      exact ih (n + 1)

/-- A member that was written is found with its value. -/
theorem exists_find?_of_lookup (h : ms.lookup name = some j) :
    ∃ place, find? name (written ms) = some (place, j) := by
  have hfind := find?_zipIdx ms 0 name
  rw [h, Option.map_eq_some_iff] at hfind
  obtain ⟨⟨place, j'⟩, hfind, rfl⟩ := hfind
  exact ⟨place, hfind⟩

/-- A member that was not written is not found. -/
theorem find?_eq_none_of_lookup (h : ms.lookup name = none) : find? name (written ms) = none := by
  have hfind := find?_zipIdx ms 0 name
  rw [h, Option.map_eq_none_iff] at hfind
  exact hfind

/-- A field has a result of its own, or one that was read. -/
theorem Yields.of_orElse {fallback : Bool → Except (Fault ε) α}
    (h : (orElse name d fallback).Yields x) : d.Yields x ∨ ∃ inOrder, fallback inOrder = .ok x := by
  obtain ⟨inOrder, room, ms, h⟩ := h
  simp only [orElse] at h
  split at h
  · rename_i place j _
    exact .inl ⟨room, j, mapError_eq_ok_iff.1 h⟩
  · exact .inr ⟨inOrder, mapError_eq_ok_iff.1 h⟩

theorem reads_orElse {fallback : Bool → Except (Fault ε) α} (hj : ms.lookup name = some j)
    (h : d.Reads j x) : (orElse name d fallback).Reads ms x := by
  intro room hroom
  obtain ⟨place, hfind⟩ := exists_find?_of_lookup hj
  simp only [orElse, hfind]
  exact mapError_eq_ok_iff.2 (h room (hroom _ (mem_of_lookup_eq_some hj)))

/-- A field that has to be there was read. -/
theorem Yields.of_required (h : (required name d).Yields x) : d.Yields x :=
  h.of_orElse.resolve_right fun ⟨_, hnone⟩ => by cases hnone

theorem reads_required (hj : ms.lookup name = some j) (h : d.Reads j x) :
    (required name d).Reads ms x :=
  reads_orElse hj h

/-- A field that has a value of its own has that one, or one that was read. -/
theorem Yields.of_defaulted {fallback : α} (h : (defaulted name fallback d).Yields x) :
    x = fallback ∨ d.Yields x := by
  rcases h.of_orElse with h | ⟨_, h⟩
  · exact .inr h
  · cases h
    exact .inl rfl

theorem reads_defaulted {fallback : α} (hj : ms.lookup name = some j) (h : d.Reads j x) :
    (defaulted name fallback d).Reads ms x :=
  reads_orElse hj h

theorem reads_absent {fallback : α} (h : ms.lookup name = none) :
    (defaulted name fallback d).Reads ms fallback := fun room _ => by
  simp only [defaulted, orElse, find?_eq_none_of_lookup h]
  rfl

end Members

end Fields

namespace Decoder

open Fields

variable {ε α : Type} {fields : Fields ε α} {d : Decoder ε α} {ms : List (String × Json)}
  {j : Json} {x : α}

section Records

/-- A record has the result of its fields. -/
theorem Yields.of_record (h : (Fields.record fields).Yields x) : fields.Yields x := by
  obtain ⟨room, j, h⟩ := h
  unfold Fields.record at h
  split at h
  · rename_i room ms
    obtain ⟨f, hf, x', hx', rfl⟩ := both_eq_ok_iff.1 (mapError_eq_ok_iff.1 h)
    -- The members are all in place, or there would be no result.
    split at hf <;> cases hf
    exact ⟨false, room, _, hx'⟩
  · rename_i room js
    obtain ⟨x', hx', h⟩ := bind_eq_ok_iff.1 h
    split at h <;> cases h
    exact ⟨true, room, _, mapError_eq_ok_iff.1 hx'⟩
  · cases h

/-- The containers of a member have room in those of its record. -/
theorem depth_le_of_record {room : Nat} (h : (Json.record ms).depth ≤ room + 1) :
    ∀ m ∈ ms, m.2.depth ≤ room := fun m hm => by
  have hmember : (some m.1, m.2) ∈ ms.map fun (k, v) => (some k, v) := List.mem_map_of_mem hm
  rw [Json.record, depth] at h
  exact Nat.le_trans (depth_le_depthMembers hmember) (Nat.le_of_add_le_add_right h)

/-- There is room for a record only if there is some. -/
theorem exists_room_of_record {room : Nat} (h : (Json.record ms).depth ≤ room) :
    ∃ inner, room = inner + 1 := by
  rw [Json.record, depth] at h
  exact Nat.exists_eq_add_of_le' (Nat.le_of_add_left_le h)

/-- A record is read whose members are in place and have the result of its fields. -/
theorem reads_record (hplace : misplaced? fields.names [] (written ms) = none)
    (h : fields.Reads ms x) : (Fields.record fields).Reads (.record ms) x := by
  intro room hroom
  obtain ⟨room, rfl⟩ := exists_room_of_record hroom
  have hread := h room (depth_le_of_record hroom)
  change Fields.record fields (room + 1) (.object (ms.map fun (k, v) => (some k, v))) = .ok x
  rw [Fields.record]
  refine mapError_eq_ok_iff.2 (both_eq_ok_iff.2 ⟨id, ?_, x, hread, rfl⟩)
  rw [written] at hplace
  rw [hplace]

end Records

section Tagged

variable {τ : Type} {tag content : String} {tagger : Decoder ε τ}
  {alternative : Bool → τ → α ⊕ Decoder ε α} {t : τ} {jt : Json}

/-- What stands as the content of an alternative is nothing for one that has none, and is read for
any other. -/
theorem inl_or_yields_of_content {kept : Bool} {room : Nat}
    (h : (match alternative kept t with
      | .inl x => if j matches .null then .ok x else .error .shape
      | .inr d => d room j : Except (Fault ε) α) = .ok x) :
    alternative kept t = .inl x ∨ ∃ d, alternative kept t = .inr d ∧ d.Yields x := by
  split at h
  · rename_i hx
    split at h <;> cases h
    exact .inl hx
  · rename_i d hd
    exact .inr ⟨d, hd, room, j, h⟩

/-- An alternative with a name of its own is the one of that name, or its content was read. -/
theorem Yields.of_tagged (h : (tagged tag content tagger alternative).Yields x) :
    ∃ t kept, tagger.Yields t ∧
      (alternative kept t = .inl x ∨ ∃ d, alternative kept t = .inr d ∧ d.Yields x) := by
  obtain ⟨room, j, h⟩ := h
  unfold tagged at h
  split at h
  · rename_i room ms
    obtain ⟨f, hf, x', hx', rfl⟩ := both_eq_ok_iff.1 (mapError_eq_ok_iff.1 h)
    obtain rfl : f = id := by
      split at hf <;> cases hf
      rfl
    split at hx'
    · cases hx'
    · -- Only an alternative without content needs none.
      rename_i place j _ _
      obtain ⟨t, ht, hx'⟩ := bind_eq_ok_iff.1 hx'
      have ht := mapError_eq_ok_iff.1 ht
      split at hx' <;> cases hx'
      rename_i hx
      exact ⟨t, false, ⟨room, j, ht⟩, .inl hx⟩
    · rename_i place j place' j' _ _
      split at hx'
      · -- The name stands in front of the content, and is read first.
        obtain ⟨t, ht, hx'⟩ := bind_eq_ok_iff.1 hx'
        exact ⟨t, false, ⟨room, j, mapError_eq_ok_iff.1 ht⟩,
          inl_or_yields_of_content (mapError_eq_ok_iff.1 hx')⟩
      · -- The content stands in front of the name, and is kept until that is known.
        split at hx'
        · obtain ⟨t, ht, hx'⟩ := bind_eq_ok_iff.1 (mapError_eq_ok_iff.1 hx')
          exact ⟨t, true, ⟨room, j, ht⟩, inl_or_yields_of_content hx'⟩
        · cases hx'
  · -- In a sequence, the name and the content stand in this order, and nothing behind them.
    rename_i room j j' rest
    obtain ⟨t, ht, h⟩ := bind_eq_ok_iff.1 h
    refine ⟨t, false, ⟨room, j, ht⟩, ?_⟩
    dsimp only at h
    split at h
    · rename_i x' hx
      split at h
      · exact .inl (eq_of_isEmpty h ▸ hx)
      · cases h
    · rename_i d hd
      obtain ⟨x', hx', h⟩ := bind_eq_ok_iff.1 h
      exact .inr ⟨d, hd, room, j', eq_of_isEmpty h ▸ hx'⟩
  · cases h

theorem reads_tagged (hne : tag ≠ content) (ht : tagger.Reads jt t)
    (hd : alternative false t = .inr d) (h : d.Reads j x) :
    (tagged tag content tagger alternative).Reads (.record [(tag, jt), (content, j)]) x := by
  intro room hroom
  obtain ⟨room, rfl⟩ := exists_room_of_record hroom
  have hinner := depth_le_of_record hroom
  have htag := ht room (hinner (tag, jt) (by simp))
  have hcontent := h room (hinner (content, j) (by simp))
  have hplace : misplaced? [tag, content] [] (written [(tag, jt), (content, j)]) = none := by
    simp [misplaced?, written, numbered, hne.symm]
  have hfindTag : find? tag (written [(tag, jt), (content, j)]) = some (0, jt) := by
    simp [find?, written, numbered]
  have hfindContent : find? content (written [(tag, jt), (content, j)]) = some (1, j) := by
    simp [find?, written, numbered, hne]
  rw [written] at hplace hfindTag hfindContent
  rw [Json.record, tagged]
  refine mapError_eq_ok_iff.2 (both_eq_ok_iff.2 ⟨id, by rw [hplace], x, ?_, rfl⟩)
  rw [hfindTag, hfindContent]
  refine (if_pos Nat.zero_lt_one).trans
    (bind_eq_ok_iff.2 ⟨t, mapError_eq_ok_iff.2 htag, mapError_eq_ok_iff.2 ?_⟩)
  simp only [hd]
  exact hcontent

theorem reads_bare (hne : tag ≠ content) (ht : tagger.Reads jt t)
    (hx : alternative false t = .inl x) :
    (tagged tag content tagger alternative).Reads (.record [(tag, jt)]) x := by
  intro room hroom
  obtain ⟨room, rfl⟩ := exists_room_of_record hroom
  have htag := ht room (depth_le_of_record hroom (tag, jt) (by simp))
  have hplace : misplaced? [tag, content] [] (written [(tag, jt)]) = none := by
    simp [misplaced?, written, numbered]
  have hfindTag : find? tag (written [(tag, jt)]) = some (0, jt) := by
    simp [find?, written, numbered]
  have hfindContent : find? content (written [(tag, jt)]) = none := by
    simp [find?, written, numbered, hne]
  rw [written] at hplace hfindTag hfindContent
  rw [Json.record, tagged]
  refine mapError_eq_ok_iff.2 (both_eq_ok_iff.2 ⟨id, by rw [hplace], x, ?_, rfl⟩)
  rw [hfindTag, hfindContent]
  refine bind_eq_ok_iff.2 ⟨t, mapError_eq_ok_iff.2 htag, ?_⟩
  rw [hx]
  rfl

end Tagged

end Decoder

end Json

end BytecodeLowering
