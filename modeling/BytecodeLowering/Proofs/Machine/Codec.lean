import BytecodeLowering.Machine.Codec
import Mathlib.Data.List.Nodup

/-!
# Lawful codecs

A codec is lawful if it reads back what it writes, whatever comes behind it, and reads nothing else.
Each codec of `Codec` is lawful when those of the parts are.

* `Codec.Lawful`: the law, with the values that fit.
* `Codec.Lawful.get_eq_none_of_prefix`: bytes that are cut short are not read.
* `Codec.lawful_nat`, `Codec.lawful_string` and the like: the codecs of plain values.
* `Codec.Lawful.via`, `Codec.Lawful.pair`, `Codec.Lawful.list`, `Codec.Lawful.option`: the codecs
  that are made of others.
* `Variant.Lawful`, `Numbered`, `Codec.Lawful.union`: alternatives.
-/

namespace BytecodeLowering.Machine

namespace Codec

variable {α β : Type} {c : Codec α} {d : Codec β} {Fits : α → Prop} {Fits' : β → Prop}

/-- A codec that writes exactly the values that fit, and that reads a value exactly from the bytes
that it writes for it. -/
structure Lawful (c : Codec α) (Fits : α → Prop) : Prop where
  /-- The values that fit are written. -/
  put_iff : ∀ a, (∃ bs, c.put a = some bs) ↔ Fits a
  /-- A value is read from its own bytes, and what is behind them is left over. -/
  get_iff : ∀ bs a rest, c.get bs = some (a, rest) ↔ ∃ b, c.put a = some b ∧ bs = b ++ rest

/-- What is written for a pair is what is written for its parts. -/
theorem put_pair_eq_some_iff {p : α × β} {bs : Bytes} : (c.pair d).put p = some bs ↔
    ∃ b₁ b₂, c.put p.1 = some b₁ ∧ d.put p.2 = some b₂ ∧ bs = b₁ ++ b₂ := by
  simp only [pair, Option.bind_eq_bind, Option.bind_eq_some_iff, Option.pure_def,
    Option.some.injEq]
  constructor
  · rintro ⟨b₁, hput, b₂, hput', rfl⟩
    exact ⟨b₁, b₂, hput, hput', rfl⟩
  · rintro ⟨b₁, b₂, hput, hput', rfl⟩
    exact ⟨b₁, hput, b₂, hput', rfl⟩

namespace Lawful

/-- What is written is read back, whatever comes behind it. -/
theorem get_append (h : c.Lawful Fits) {a : α} {b : Bytes} (hput : c.put a = some b)
    (rest : Bytes) : c.get (b ++ rest) = some (a, rest) :=
  (h.get_iff _ _ _).2 ⟨b, hput, rfl⟩

/-- Bytes that are cut short are not read. -/
theorem get_eq_none_of_prefix (h : c.Lawful Fits) {a : α} {b p : Bytes} (hput : c.put a = some b)
    (hp : p <+: b) (hne : p ≠ b) : c.get p = none := by
  obtain ⟨missing, rfl⟩ := hp
  rw [Option.eq_none_iff_forall_not_mem]
  rintro ⟨a', rest⟩ hget
  obtain ⟨b', hput', rfl⟩ := (h.get_iff _ _ _).1 hget
  -- The bytes `b'` of `a'` start the whole as well, so that `a'` is read from it, not only `a`.
  have hwhole := h.get_append hput []
  rw [List.append_nil, List.append_assoc, h.get_append hput'] at hwhole
  have hnil : rest ++ missing = [] := congrArg Prod.snd (Option.some.inj hwhole)
  apply hne
  rw [(List.append_eq_nil_iff.1 hnil).2, List.append_nil]

/-- Values by way of values of another type. -/
theorem via (h : d.Lawful Fits') {form : α → β} {of? : β → Option α}
    (hof : ∀ a, of? (form a) = some a) (hform : ∀ b a, Fits' b → of? b = some a → form a = b)
    (hfits : ∀ a, Fits' (form a) ↔ Fits a) : (d.via form of?).Lawful Fits where
  put_iff a := (h.put_iff (form a)).trans (hfits a)
  get_iff bs a rest := by
    simp only [Codec.via, Option.bind_eq_bind, Option.bind_eq_some_iff, Prod.exists,
      Option.pure_def, Option.some.injEq, Prod.mk.injEq]
    constructor
    · rintro ⟨b, rest', hget, a', ha, rfl, rfl⟩
      obtain ⟨b', hput, rfl⟩ := (h.get_iff _ _ _).1 hget
      -- `b` was written as well, so that it fits and is the form of the value.
      rw [← hform b a' ((h.put_iff b).1 ⟨b', hput⟩) ha] at hput
      exact ⟨b', hput, rfl⟩
    · rintro ⟨b', hput, rfl⟩
      exact ⟨form a, rest, h.get_append hput rest, a, hof a, rfl, rfl⟩

/-- Records by way of their fields. -/
theorem record (h : d.Lawful Fits') {form : α → β} {of? : β → Option α}
    (hfits : ∀ a, Fits' (form a) ↔ Fits a)
    (hof : ∀ a, of? (form a) = some a := by intro _; rfl)
    (hform : ∀ b, (of? b).map form = some b := by intro _; rfl) :
    (d.via form of?).Lawful Fits := by
  refine h.via hof ?_ hfits
  intro b a _ ha
  have hmap := hform b
  rw [ha, Option.map_some, Option.some.injEq] at hmap
  exact hmap

/-- A value, then another one. -/
theorem pair (h : c.Lawful Fits) (h' : d.Lawful Fits') :
    (c.pair d).Lawful fun p => Fits p.1 ∧ Fits' p.2 where
  put_iff p := by
    -- Both directions cut the bytes where the first value ends.
    rw [← h.put_iff, ← h'.put_iff]
    simp [Codec.pair, Option.bind_eq_some_iff]
  get_iff bs p rest := by
    simp only [put_pair_eq_some_iff]
    simp only [Codec.pair, Option.bind_eq_bind, Option.bind_eq_some_iff, Prod.exists,
      Option.pure_def, Option.some.injEq, Prod.mk.injEq]
    constructor
    · rintro ⟨a, bs', hget, b, rest', hget', rfl, rfl⟩
      obtain ⟨b₁, hput, rfl⟩ := (h.get_iff _ _ _).1 hget
      obtain ⟨b₂, hput', rfl⟩ := (h'.get_iff _ _ _).1 hget'
      exact ⟨b₁ ++ b₂, ⟨b₁, b₂, hput, hput', rfl⟩, (List.append_assoc _ _ _).symm⟩
    · rintro ⟨_, ⟨b₁, b₂, hput, hput', rfl⟩, rfl⟩
      rw [List.append_assoc]
      exact ⟨p.1, b₂ ++ rest, h.get_append hput _, p.2, rest, h'.get_append hput' _, rfl, rfl⟩

end Lawful

/-! ### Numbers -/

/-- A number that some bytes can hold. -/
def WidthFits (width n : Nat) : Prop :=
  n < Nat.pow 256 width

instance (width n : Nat) : Decidable (WidthFits width n) :=
  inferInstanceAs (Decidable (n < Nat.pow 256 width))

/-- A number has a lowest byte, and the others fit what is left. -/
theorem widthFits_succ_iff {width n : Nat} :
    WidthFits (width + 1) n ↔ WidthFits width (n / 256) := by
  have hpow : Nat.pow 256 (width + 1) = Nat.pow 256 width * 256 := rfl
  rw [WidthFits, WidthFits, hpow, Nat.div_lt_iff_lt_mul (by decide)]

/-- A number is read exactly from its own bytes. -/
theorem natOf_eq_some_iff {width n : Nat} {bs rest : Bytes} :
    natOf width bs = some (n, rest) ↔ WidthFits width n ∧ bs = bytesOf width n ++ rest := by
  induction width generalizing n bs with
  | zero =>
    have hzero : WidthFits 0 n ↔ n = 0 := Nat.lt_one_iff
    simp [natOf, bytesOf, hzero, eq_comm]
  | succ width ih =>
    cases bs with
    | nil => simp [natOf, bytesOf]
    | cons b bs =>
      simp only [natOf, Option.bind_eq_bind, Option.bind_eq_some_iff, Prod.exists,
        Option.pure_def, Option.some.injEq, Prod.mk.injEq, bytesOf, List.cons_append,
        List.cons.injEq]
      -- The first byte is the remainder by 256, and those behind it hold the quotient.
      constructor
      · rintro ⟨m, rest', hget, rfl, rfl⟩
        obtain ⟨hm, rfl⟩ := ih.1 hget
        have hb := b.toNat_lt
        have hlow : (b.toNat + 256 * m) % 256 = b.toNat := by omega
        have hhigh : (b.toNat + 256 * m) / 256 = m := by omega
        rw [widthFits_succ_iff, hlow, hhigh]
        exact ⟨hm, UInt8.ofNat_toNat.symm, rfl⟩
      · rintro ⟨hn, rfl, rfl⟩
        refine ⟨n / 256, rest, ih.2 ⟨widthFits_succ_iff.1 hn, rfl⟩, ?_, rfl⟩
        rw [UInt8.toNat_ofNat']
        omega

/-- Numbers of some bytes. -/
theorem lawful_nat (width : Nat) : (nat width).Lawful (WidthFits width) where
  put_iff n := by
    show (∃ bs, (if WidthFits width n then some (bytesOf width n) else none) = some bs) ↔ _
    by_cases hn : WidthFits width n
    · simp [hn]
    · simp [hn]
  get_iff bs n rest := by
    show natOf width bs = _ ↔
      ∃ b, (if WidthFits width n then some (bytesOf width n) else none) = some b ∧ _
    rw [natOf_eq_some_iff]
    by_cases hn : WidthFits width n
    · simp [hn]
    · simp [hn]

theorem length_bytesOf (width n : Nat) : (bytesOf width n).length = width := by
  induction width generalizing n with
  | zero => rfl
  | succ width ih => rw [bytesOf, List.length_cons, ih]

/-- What is written behind a number makes the whole longer than itself by the width of that. -/
theorem length_of_put_nat_append {width n : Nat} {content : Option Bytes} {b : Bytes}
    (h : (do
      let tag ← (nat width).put n
      let bs ← content
      return tag ++ bs) = some b) : ∃ bs, content = some bs ∧ b.length = width + bs.length := by
  obtain ⟨tag, htag, h⟩ := Option.bind_eq_some_iff.1 h
  obtain ⟨bs, hbs, h⟩ := Option.bind_eq_some_iff.1 h
  cases h
  have hlen : tag.length = width := by
    simp only [nat] at htag
    split at htag
    · cases htag
      exact length_bytesOf width n
    · cases htag
  exact ⟨bs, hbs, by rw [List.length_append, hlen]⟩

/-- Values that all have a form that fits, and for each form that fits a value. -/
theorem Lawful.via_total (h : d.Lawful Fits') {form : α → β} {back : β → α}
    (hfits : ∀ a, Fits' (form a)) (hback : ∀ a, back (form a) = a)
    (hform : ∀ b, Fits' b → form (back b) = b) :
    (d.via form fun b => some (back b)).Lawful fun _ => True := by
  refine h.via ?_ ?_ ?_
  · intro a
    rw [hback]
  · rintro b _ hb ⟨⟩
    exact hform b hb
  · intro a
    exact iff_true_intro (hfits a)

theorem lawful_uint16 : uint16.Lawful fun _ => True :=
  (lawful_nat 2).via_total UInt16.toNat_lt (fun _ => UInt16.ofNat_toNat)
    fun _ hn => UInt16.toNat_ofNat_of_lt hn

theorem lawful_uint32 : uint32.Lawful fun _ => True :=
  (lawful_nat 4).via_total UInt32.toNat_lt (fun _ => UInt32.ofNat_toNat)
    fun _ hn => UInt32.toNat_ofNat_of_lt hn

theorem lawful_uint64 : uint64.Lawful fun _ => True :=
  (lawful_nat 8).via_total UInt64.toNat_lt (fun _ => UInt64.ofNat_toNat)
    fun _ hn => UInt64.toNat_ofNat_of_lt hn

theorem lawful_int32 : int32.Lawful fun _ => True :=
  lawful_uint32.via_total (fun _ => trivial) (fun _ => rfl) fun _ _ => rfl

theorem lawful_int64 : int64.Lawful fun _ => True :=
  lawful_uint64.via_total (fun _ => trivial) (fun _ => rfl) fun _ _ => rfl

/-- Truth values; a byte other than 0 and 1 is none of them. -/
theorem lawful_bool : bool.Lawful fun _ => True := by
  refine (lawful_nat 1).via ?_ ?_ ?_
  · intro b
    cases b <;> rfl
  · intro n b _ hb
    match n, hb with
    | 0, rfl => rfl
    | 1, rfl => rfl
  · intro b
    cases b <;> decide

/-! ### Sequences -/

/-- A list whose length and whose elements fit. -/
def ListFits (Fits : α → Prop) (as : List α) : Prop :=
  WidthFits 8 as.length ∧ ∀ a ∈ as, Fits a

/-- Several values are written iff each of them is. -/
theorem putAll_iff (h : c.Lawful Fits) {as : List α} :
    (∃ bs, putAll c as = some bs) ↔ ∀ a ∈ as, Fits a := by
  induction as with
  | nil => simp [putAll]
  | cons a as ih =>
    rw [List.forall_mem_cons, ← h.put_iff, ← ih]
    simp [putAll, Option.bind_eq_some_iff]

/-- Each element of a list is no longer than the list. -/
theorem exists_of_put_list {as : List α} {bs : Bytes} (h : c.list.put as = some bs) :
    ∀ a ∈ as, ∃ b, c.put a = some b ∧ b.length ≤ bs.length := by
  -- The induction is on what is behind the length, which comes first only once.
  have hall : ∀ {as bs}, putAll c as = some bs →
      ∀ a ∈ as, ∃ b, c.put a = some b ∧ b.length ≤ bs.length := by
    intro as
    induction as with
    | nil => simp
    | cons a as ih =>
      intro bs h
      obtain ⟨b₁, hput, h⟩ := Option.bind_eq_some_iff.1 h
      obtain ⟨b₂, hputs, h⟩ := Option.bind_eq_some_iff.1 h
      cases h
      rw [List.forall_mem_cons, List.length_append]
      refine ⟨⟨b₁, hput, Nat.le_add_right _ _⟩, ?_⟩
      intro a' ha'
      obtain ⟨b, hb, hle⟩ := ih hputs a' ha'
      exact ⟨b, hb, Nat.le_add_left_of_le hle⟩
  obtain ⟨bs', hputs, hlen⟩ := length_of_put_nat_append h
  intro a ha
  obtain ⟨b, hb, hle⟩ := hall hputs a ha
  exact ⟨b, hb, by omega⟩

/-- What is written for a list depends on what is written for its elements alone. -/
theorem put_list_congr {c' : Codec α} {as : List α} (h : ∀ a ∈ as, c.put a = c'.put a) :
    c.list.put as = c'.list.put as := by
  have hall : putAll c as = putAll c' as := by
    induction as with
    | nil => rfl
    | cons a as ih =>
      rw [List.forall_mem_cons] at h
      rw [putAll, putAll, h.1, ih h.2]
  simp only [Codec.list, hall]

/-- As many values as there are to be read are read exactly from their own bytes. -/
theorem getAll_eq_some_iff (h : c.Lawful Fits) {n : Nat} {as : List α} {bs rest : Bytes} :
    getAll c n bs = some (as, rest) ↔
      as.length = n ∧ ∃ b, putAll c as = some b ∧ bs = b ++ rest := by
  induction n generalizing as bs with
  | zero =>
    rw [List.length_eq_zero_iff]
    constructor
    · intro hget
      cases hget
      exact ⟨rfl, [], rfl, rfl⟩
    · rintro ⟨rfl, _, hput, rfl⟩
      cases hput
      rfl
  | succ n ih =>
    simp only [getAll, Option.bind_eq_bind, Option.bind_eq_some_iff, Prod.exists, Option.pure_def,
      Option.some.injEq, Prod.mk.injEq]
    constructor
    · -- What is read first is what is written first, so that the two byte sequences agree piece by
      -- piece.
      rintro ⟨a, bs', hget, as', rest', hgets, rfl, rfl⟩
      obtain ⟨b, hput, rfl⟩ := (h.get_iff _ _ _).1 hget
      obtain ⟨rfl, b', hputs, rfl⟩ := ih.1 hgets
      refine ⟨rfl, b ++ b', ?_, (List.append_assoc _ _ _).symm⟩
      simp [putAll, hput, hputs]
    · rintro ⟨hlen, b, hput, rfl⟩
      cases as with
      | nil => cases hlen
      | cons a as =>
        simp only [putAll, Option.bind_eq_bind, Option.bind_eq_some_iff, Option.pure_def,
          Option.some.injEq] at hput
        obtain ⟨b₁, hput, b₂, hputs, rfl⟩ := hput
        rw [List.append_assoc]
        exact ⟨a, b₂ ++ rest, h.get_append hput _, as, rest,
          ih.2 ⟨Nat.succ.inj hlen, b₂, hputs, rfl⟩, rfl, rfl⟩

/-- Sequences of values. -/
theorem Lawful.list (h : c.Lawful Fits) : c.list.Lawful (ListFits Fits) where
  put_iff as := by
    rw [ListFits, ← (lawful_nat 8).put_iff, ← putAll_iff h]
    simp [Codec.list, Option.bind_eq_some_iff]
  get_iff bs as rest := by
    simp only [Codec.list, Option.bind_eq_bind, Option.bind_eq_some_iff, Prod.exists,
      Option.pure_def, Option.some.injEq, getAll_eq_some_iff h]
    constructor
    · -- The number of values is written in front of them.
      rintro ⟨n, bs', hget, rfl, b, hput, rfl⟩
      obtain ⟨b', hput', rfl⟩ := ((lawful_nat 8).get_iff _ _ _).1 hget
      exact ⟨b' ++ b, ⟨b', hput', b, hput, rfl⟩, (List.append_assoc _ _ _).symm⟩
    · rintro ⟨_, ⟨b', hput', b, hput, rfl⟩, rfl⟩
      rw [List.append_assoc]
      exact ⟨as.length, b ++ rest, (lawful_nat 8).get_append hput' _, rfl, b, hput, rfl⟩

/-- A text whose length fits. -/
def StringFits (s : String) : Prop :=
  WidthFits 8 s.utf8ByteSize

instance (s : String) : Decidable (StringFits s) :=
  inferInstanceAs (Decidable (WidthFits 8 s.utf8ByteSize))

/-- Bytes are a text iff they are its UTF-8 form. -/
theorem fromUTF8?_eq_some_iff {bs : ByteArray} {s : String} :
    String.fromUTF8? bs = some s ↔ s.toUTF8 = bs := by
  rw [String.fromUTF8?, String.toUTF8_eq_toByteArray]
  constructor
  · intro h
    split at h
    · cases h
      rfl
    · cases h
  · rintro rfl
    rw [dif_pos s.isValidUTF8]
    rfl

/-- Texts; bytes that are not UTF-8 are none. -/
theorem lawful_string : string.Lawful StringFits where
  put_iff s := by
    rw [StringFits, ← (lawful_nat 8).put_iff]
    simp [string, Option.bind_eq_some_iff]
  get_iff bs s rest := by
    simp only [string, Option.bind_eq_bind, Option.bind_eq_some_iff, Prod.exists,
      Option.pure_def, Option.some.injEq]
    constructor
    · rintro ⟨n, bs', hget, h⟩
      obtain ⟨b, hput, rfl⟩ := ((lawful_nat 8).get_iff _ _ _).1 hget
      split at h
      case isFalse => cases h
      case isTrue hle =>
      obtain ⟨s', hs', h⟩ := Option.bind_eq_some_iff.1 h
      cases h
      -- The text takes up all of the bytes that were counted for it.
      have hbytes : s.toUTF8.data.toList = bs'.take n := by
        rw [fromUTF8?_eq_some_iff.1 hs']
      have hlen : s.toUTF8.data.toList.length = n := by
        rw [hbytes, List.length_take, Nat.min_eq_left hle]
      refine ⟨_, ⟨b, by rw [hlen, hput], rfl⟩, ?_⟩
      rw [List.append_assoc, hbytes, List.take_append_drop]
    · rintro ⟨_, ⟨b, hput, rfl⟩, rfl⟩
      rw [List.append_assoc]
      refine ⟨_, _, (lawful_nat 8).get_append hput _, ?_⟩
      rw [if_pos (by simp), List.take_left, List.drop_left, Array.toArray_toList,
        fromUTF8?_eq_some_iff.2 rfl]
      rfl

/-- Values that may be absent. -/
theorem Lawful.option (h : c.Lawful Fits) : c.option.Lawful fun o => ∀ a ∈ o, Fits a where
  put_iff o := by
    cases o with
    | none => simp [Codec.option]
    | some a => simp [Codec.option, ← h.put_iff]
  get_iff bs o rest := by
    constructor
    · intro hget
      -- The first byte tells whether there is a value: zero if not, and one if there is.
      simp only [Codec.option] at hget
      split at hget
      case h_1 =>
        cases hget
        exact ⟨[0], rfl, rfl⟩
      case h_2 =>
        obtain ⟨⟨a, rest'⟩, hget, hpair⟩ := Option.map_eq_some_iff.1 hget
        obtain ⟨b, hput, rfl⟩ := (h.get_iff _ _ _).1 hget
        cases hpair
        exact ⟨1 :: b, by simp [Codec.option, hput], rfl⟩
      case h_3 => cases hget
    · rintro ⟨b, hput, rfl⟩
      cases o with
      | none =>
        cases hput
        rfl
      | some a =>
        obtain ⟨b', hput', rfl⟩ := Option.map_eq_some_iff.1 hput
        show (c.get (b' ++ rest)).map _ = _
        rw [h.get_append hput']
        rfl

/-! ### Alternatives -/

/-- The values of a list, by their places in it. -/
theorem lawful_ofList [DecidableEq α] {all : List α} (hall : ∀ a, a ∈ all) (hnodup : all.Nodup)
    (hlen : all.length ≤ Nat.pow 256 4) : (ofList all).Lawful fun _ => True where
  put_iff a := by
    refine iff_true_intro ?_
    rw [ofList]
    simp only [hall a, if_true, (lawful_nat 4).put_iff]
    exact Nat.lt_of_lt_of_le (List.idxOf_lt_length_of_mem (hall a)) hlen
  get_iff bs a rest := by
    simp only [ofList, hall a, if_true, Option.bind_eq_bind, Option.bind_eq_some_iff, Prod.exists,
      Option.pure_def, Option.some.injEq, Prod.mk.injEq]
    constructor
    · rintro ⟨n, bs', hget, a', ha, rfl, rfl⟩
      obtain ⟨b, hput, rfl⟩ := ((lawful_nat 4).get_iff _ _ _).1 hget
      obtain ⟨hn, rfl⟩ := List.getElem?_eq_some_iff.1 ha
      -- The value stands at no other place than the one that was read.
      rw [hnodup.idxOf_getElem n hn]
      exact ⟨b, hput, rfl⟩
    · rintro ⟨b, hput, rfl⟩
      exact ⟨_, _, (lawful_nat 4).get_append hput _, a, List.getElem?_idxOf (hall a), rfl, rfl⟩

theorem lawful_empty (h : ∀ a, ¬Fits a) : (empty : Codec α).Lawful Fits where
  put_iff a := by simp [empty, h a]
  get_iff bs a rest := by simp [empty]

end Codec

/-- An alternative that writes exactly those of its values that fit, and that reads a value exactly
from the bytes that it writes for it. -/
structure Variant.Lawful {α : Type} (v : Variant α) (Fits : α → Prop) : Prop where
  /-- The values of the alternative that fit are written. -/
  put_iff : ∀ a content, v.put? a = some content → ((∃ bs, content = some bs) ↔ Fits a)
  /-- A value is read from its own bytes, and what is behind them is left over. -/
  get_iff : ∀ bs a rest, v.get bs = some (a, rest) ↔ ∃ b, v.put? a = some (some b) ∧ bs = b ++ rest

/-- The alternative of the values that carry a value of another type. -/
theorem Codec.Lawful.variant {α β : Type} {c : Codec β} {Fits' : β → Prop} (h : c.Lawful Fits')
    {Fits : α → Prop} {make : β → α} {content? : α → Option β}
    (hfits : ∀ b, Fits' b ↔ Fits (make b))
    (hmake : ∀ b, content? (make b) = some b := by intro _; rfl)
    (hcontent : ∀ a b, content? a = some b → make b = a := by rintro ⟨⟩ _ ⟨⟩; rfl) :
    (Variant.of c make content?).Lawful Fits where
  put_iff a content hput := by
    obtain ⟨b, hb, rfl⟩ := Option.map_eq_some_iff.1 hput
    rw [h.put_iff, hfits, hcontent a b hb]
  get_iff bs a rest := by
    simp only [Variant.of, Option.map_eq_some_iff, Prod.exists, Prod.mk.injEq]
    constructor
    · rintro ⟨b, rest', hget, rfl, rfl⟩
      obtain ⟨b', hput, rfl⟩ := (h.get_iff _ _ _).1 hget
      exact ⟨b', ⟨b, hmake b, hput⟩, rfl⟩
    · rintro ⟨b', ⟨b, hb, hput⟩, rfl⟩
      exact ⟨b, rest, h.get_append hput rest, hcontent a b hb, rfl⟩

/-- Alternatives of which each value has exactly the one at its place. -/
def Numbered {α : Type} (place : α → Nat) (vs : List (Variant α)) : Prop :=
  ∀ a, vs[place a]?.isSome ∧
    vs.map (fun v => (v.put? a).isSome) = (List.range vs.length).map (place a == ·)

section Union

variable {α : Type} {place : α → Nat} {vs : List (Variant α)} {a : α}

theorem Numbered.isSome_put? (h : Numbered place vs) (a : α) {i : Nat} {v : Variant α}
    (hv : vs[i]? = some v) : (v.put? a).isSome = (place a == i) := by
  obtain ⟨hi, rfl⟩ := List.getElem?_eq_some_iff.1 hv
  have hat := congrArg (·[i]?) (h a).2
  simpa [hi] using hat

/-- The alternatives in front of the one of a value are passed by. -/
theorem Codec.putUnion_eq {n : Nat} {v : Variant α} {content : Option Bytes}
    (hv : vs[n]? = some v) (hput : v.put? a = some content)
    (hnone : ∀ i < n, ∀ w, vs[i]? = some w → w.put? a = none) (index : Nat) :
    putUnion a index vs = (do
      let tag ← (nat 4).put (index + n)
      let bs ← content
      return tag ++ bs) := by
  induction vs generalizing n index with
  | nil => cases hv
  | cons w ws ih =>
    cases n with
    | zero =>
      cases hv
      rw [putUnion, hput]
      rfl
    | succ n =>
      -- The first alternative is not the one; the next has the number behind `index`.
      rw [putUnion, hnone 0 (Nat.succ_pos n) w rfl]
      have hstep := ih hv (fun i hi => hnone (i + 1) (Nat.succ_lt_succ hi)) (index + 1)
      rw [Nat.add_right_comm] at hstep
      exact hstep

/-- A value is written as its place and what the alternative there writes for it. -/
theorem Numbered.exists_putUnion_eq (h : Numbered place vs) (a : α) :
    ∃ v content, vs[place a]? = some v ∧ v.put? a = some content ∧
      Codec.putUnion a 0 vs = (do
        let tag ← (Codec.nat 4).put (place a)
        let bs ← content
        return tag ++ bs) := by
  obtain ⟨v, hv⟩ := Option.isSome_iff_exists.1 (h a).1
  have hsome := h.isSome_put? a hv
  rw [beq_self_eq_true] at hsome
  obtain ⟨content, hput⟩ := Option.isSome_iff_exists.1 hsome
  -- No alternative in front of that place has the value.
  have hnone : ∀ i < place a, ∀ w, vs[i]? = some w → w.put? a = none := by
    intro i hi w hw
    rw [← Option.not_isSome_iff_eq_none, h.isSome_put? a hw, beq_iff_eq]
    exact Nat.ne_of_gt hi
  have heq := Codec.putUnion_eq hv hput hnone 0
  rw [Nat.zero_add] at heq
  exact ⟨v, content, hv, hput, heq⟩

/-- Values of several alternatives. -/
theorem Codec.Lawful.union {Fits : α → Prop} (place : α → Nat) (hnum : Numbered place vs)
    (hlen : vs.length ≤ Nat.pow 256 4) (hvs : ∀ v ∈ vs, v.Lawful Fits) :
    (Codec.union vs).Lawful Fits where
  put_iff a := by
    obtain ⟨v, content, hv, hput, heq⟩ := hnum.exists_putUnion_eq a
    have hplace : place a < vs.length := (List.getElem?_eq_some_iff.1 hv).1
    obtain ⟨tag, htag⟩ := ((lawful_nat 4).put_iff (place a)).2 (Nat.lt_of_lt_of_le hplace hlen)
    show (∃ bs, putUnion a 0 vs = some bs) ↔ Fits a
    rw [heq, ← (hvs v (List.mem_of_getElem? hv)).put_iff a content hput, htag]
    simp [Option.bind_eq_some_iff]
  get_iff bs a rest := by
    obtain ⟨v, content, hv, hput, heq⟩ := hnum.exists_putUnion_eq a
    have hlaw := hvs v (List.mem_of_getElem? hv)
    show ((nat 4).get bs >>= fun p => vs[p.1]? >>= fun v => v.get p.2) = _ ↔
      ∃ b, putUnion a 0 vs = some b ∧ _
    simp only [heq, Option.bind_eq_bind, Option.bind_eq_some_iff, Prod.exists, Option.pure_def,
      Option.some.injEq]
    constructor
    · rintro ⟨n, bs', hget, v', hv', hget'⟩
      obtain ⟨tag, htag, rfl⟩ := ((lawful_nat 4).get_iff _ _ _).1 hget
      obtain ⟨b, hput', rfl⟩ := ((hvs v' (List.mem_of_getElem? hv')).get_iff _ _ _).1 hget'
      -- The alternative that was read from writes the value, so that it stands at its place.
      have hn : place a = n := by
        rw [← beq_iff_eq, ← hnum.isSome_put? a hv', hput']
        rfl
      subst hn
      cases hv.symm.trans hv'
      cases hput.symm.trans hput'
      exact ⟨tag ++ b, ⟨tag, htag, b, rfl, rfl⟩, (List.append_assoc _ _ _).symm⟩
    · rintro ⟨_, ⟨tag, htag, b, rfl, rfl⟩, rfl⟩
      rw [List.append_assoc]
      exact ⟨_, _, (lawful_nat 4).get_append htag _, v, hv, (hlaw.get_iff _ _ _).2 ⟨b, hput, rfl⟩⟩

end Union

end BytecodeLowering.Machine
