import BytecodeLowering.Ir.Ty
import BytecodeLowering.Proofs.Result

/-!
# Spellings of types

Each type that a text spells has one spelling that is written for it, and this one is read as the
same type.

* `Ty.parse_spelled`: a text without blanks in front of brackets.
* `Ty.parse_render`: a type with a spelling of its own is read from it.
* `Ty.valid_of_parse`: every type that is read from a text has one.
* `Ty.parse_normalises`: both, so that reading a second time changes nothing.
-/

namespace BytecodeLowering

/-- Nothing is cut from a text without blanks. -/
theorem Text.trim_eq_self {cs : List Char} (h : ∀ c ∈ cs, isBlank c = false) : trim cs = cs := by
  have hkeep {cs : List Char} (h : ∀ c ∈ cs, isBlank c = false) : cs.dropWhile isBlank = cs := by
    cases cs with
    | nil => rfl
    | cons c cs => rw [List.dropWhile_cons, h c List.mem_cons_self]; rfl
  have hback : cs.reverse.dropWhile isBlank = cs.reverse :=
    hkeep fun c hc => h c (List.mem_reverse.1 hc)
  rw [trim, hkeep h, trimEnd, hback, List.reverse_reverse]

namespace Ir.Ty

open Text

section Brackets

variable {cs : List Char} {n : Nat}

/-- Nothing is left to take behind the brackets that were taken. -/
theorem not_isPrefix_of_peel (cs : List Char) : ¬[']', '['] <+: (peel cs).2 := by
  fun_induction peel cs with
  | case1 rest n base hpeel ih =>
    rw [hpeel] at ih
    exact ih
  | case2 cs hne =>
    rintro ⟨rest, rfl⟩
    exact hne rest rfl

/-- Without brackets at the end of a text there is nothing to take. -/
theorem peel_eq_self (h : ¬[']', '['] <+: cs) : peel cs = (0, cs) := by
  unfold peel
  split
  · exact absurd ⟨_, rfl⟩ h
  · rfl

/-- The brackets at the end of a text without blanks are taken. -/
theorem peel_brackets (hblank : ∀ c ∈ cs, isBlank c = false) (h : ¬[']', '['] <+: cs) :
    peel ((List.replicate n [']', '[']).flatten ++ cs) = (n, cs) := by
  induction n with
  | zero => exact peel_eq_self h
  | succ n ih =>
    -- What follows a pair of brackets does not start with a blank.
    have hrest : ((List.replicate n [']', '[']).flatten ++ cs).dropWhile isBlank =
        (List.replicate n [']', '[']).flatten ++ cs := by
      cases n with
      | zero =>
        cases cs with
        | nil => rfl
        | cons c cs =>
          rw [List.replicate_zero, List.flatten_nil, List.nil_append, List.dropWhile_cons,
            hblank c List.mem_cons_self]
          rfl
      | succ n => rfl
    change peel (']' :: '[' :: ((List.replicate n [']', '[']).flatten ++ cs)) = _
    rw [peel, hrest, ih]

end Brackets

section Spellings

variable {text base : String} {dims : Nat} {t : Ty} {n : String}

/-- The text of brackets. -/
theorem toList_brackets (n : Nat) :
    (String.join (List.replicate n "[]")).toList.reverse =
      (List.replicate n [']', '[']).flatten := by
  induction n with
  | zero => rfl
  | succ n ih =>
    have happend : (List.replicate (n + 1) [']', '[']).flatten =
        (List.replicate n [']', '[']).flatten ++ [']', '['] := by
      rw [List.replicate_succ', List.flatten_append, List.flatten_singleton]
    rw [happend, ← ih, List.replicate_succ]
    simp [String.toList_join]

/-- A text without blanks in front of brackets is the base of as many dimensions. -/
theorem parse_spelled (hblank : ∀ c ∈ base.toList, isBlank c = false)
    (hbase : ¬['[', ']'] <:+ base.toList) (hdims : dims ≤ 255)
    (htext : text = base ++ String.join (List.replicate dims "[]"))
    (h : ofBase text dims base = .ok t) :
    parse text = .ok (if dims = 0 then t else array t dims) := by
  have hreverse : text.toList.reverse =
      (List.replicate dims [']', '[']).flatten ++ base.toList.reverse := by
    rw [htext, String.toList_append, List.reverse_append, toList_brackets]
  -- Neither the brackets nor the base have blanks that would be cut off.
  have htrim : trim text.toList = text.toList := by
    refine trim_eq_self fun c hc => ?_
    rw [← List.mem_reverse, hreverse, List.mem_append, List.mem_reverse] at hc
    rcases hc with hc | hc
    · obtain ⟨pair, hpair, hc⟩ := List.mem_flatten.1 hc
      obtain rfl := List.eq_of_mem_replicate hpair
      rcases List.mem_pair.1 hc with rfl | rfl <;> rfl
    · exact hblank c hc
  have hpeel : peel (trim text.toList).reverse = (dims, base.toList.reverse) := by
    rw [htrim, hreverse]
    refine peel_brackets (fun c hc => hblank c (List.mem_reverse.1 hc)) fun h => hbase ?_
    exact List.reverse_prefix.1 h
  rw [parse, hpeel]
  simp only [Nat.not_lt.2 hdims, if_false, List.reverse_reverse, String.ofList_toList, h]
  rfl

theorem isBlank_of_all {cs : List Char} (h : cs.all (fun c => !isBlank c) = true) :
    ∀ c ∈ cs, isBlank c = false := by
  simpa using h

/-- A text that ends in another character does not end in brackets. -/
theorem not_isSuffix_of_getLast? {cs : List Char} (h : cs.getLast? ≠ some ']') :
    ¬['[', ']'] <:+ cs := by
  rintro ⟨front, rfl⟩
  exact h (by rw [List.getLast?_append]; rfl)

/-- The name of a class is read as that class. -/
theorem ofBase_of_validName (h : ValidName n) : ofBase text dims n = .ok (object ⟨n⟩) := by
  obtain ⟨hne, hblank, -, hprim, hvoid, hnull, hunknown⟩ := h
  have hany : n.toList.any isBlank = false := by
    simpa using hblank
  simp only [ofBase, hvoid, hnull, hunknown, hprim, if_false, List.isEmpty_iff, hne, hany,
    Bool.false_eq_true, or_self]

/-- The keyword of a primitive type is read as that type. -/
theorem ofBase_name (p : Prim) : ofBase text dims p.name = .ok (prim p) := by
  cases p <;> rfl

/-- A type that has a spelling of its own is read from it. -/
theorem parse_render (h : t.Valid) : parse t.render = .ok t := by
  have hname {n : String} (hn : ValidName n) : ∀ c ∈ n.toList, isBlank c = false :=
    isBlank_of_all hn.2.1
  -- The names of the primitive types end in a letter.
  have hprim (p : Prim) : (∀ c ∈ p.name.toList, isBlank c = false) ∧
      ¬['[', ']'] <:+ p.name.toList := by
    cases p <;> exact ⟨isBlank_of_all rfl, not_isSuffix_of_getLast? (by decide)⟩
  have hplain (s : String) : s = s ++ String.join (List.replicate 0 "[]") := by simp
  have hword {s : String} {t : Ty} (hblank : s.toList.all (fun c => !isBlank c) = true)
      (hlast : s.toList.getLast? ≠ some ']') (hs : ofBase s 0 s = .ok t) : parse s = .ok t :=
    parse_spelled (isBlank_of_all hblank) (not_isSuffix_of_getLast? hlast) (by decide) (hplain s) hs
  cases t with
  | prim p => exact parse_spelled (hprim p).1 (hprim p).2 (by decide) (hplain _) (ofBase_name p)
  | void => exact hword rfl (by decide) rfl
  | null => exact hword rfl (by decide) rfl
  | unknown => exact hword rfl (by decide) rfl
  | object n =>
    exact parse_spelled (hname h) h.2.2.1 (by decide) (hplain _) (ofBase_of_validName h)
  | array base dims =>
    cases base with
    | prim p =>
      have hparse := parse_spelled (hprim p).1 (hprim p).2 h.2 rfl (ofBase_name p)
      rwa [if_neg (Nat.ne_of_gt h.1)] at hparse
    | object n =>
      have hparse := parse_spelled (hname h.1) h.1.2.2.1 h.2.2 rfl (ofBase_of_validName h.1)
      rwa [if_neg (Nat.ne_of_gt h.2.1)] at hparse
    | _ => cases h

/-- What a text in front of brackets spells: a keyword that stands for no component of an array, a
primitive type, or a class. -/
theorem ofBase_eq_ok (h : ofBase text dims base = .ok t) (hbase : ¬['[', ']'] <:+ base.toList) :
    dims = 0 ∧ (t = void ∨ t = null ∨ t = unknown) ∨ (∃ p, t = prim p) ∨
      t = object ⟨base⟩ ∧ ValidName base := by
  have hreserved {t' : Ty}
      (h : (if dims = 0 then .ok t' else .error (TyError.notAComponent base)) = Except.ok t) :
      dims = 0 ∧ t' = t := by
    split at h <;> cases h
    exact ⟨by assumption, rfl⟩
  -- The keywords that are no primitive types come first, then those that are, then all others.
  unfold ofBase at h
  by_cases hvoid : base = "void"
  · rw [if_pos hvoid] at h
    obtain ⟨hdims, rfl⟩ := hreserved h
    exact .inl ⟨hdims, .inl rfl⟩
  by_cases hnull : base = "null_type"
  · rw [if_neg hvoid, if_pos hnull] at h
    obtain ⟨hdims, rfl⟩ := hreserved h
    exact .inl ⟨hdims, .inr (.inl rfl)⟩
  by_cases hunknown : base = "unknown"
  · rw [if_neg hvoid, if_neg hnull, if_pos hunknown] at h
    obtain ⟨hdims, rfl⟩ := hreserved h
    exact .inl ⟨hdims, .inr (.inr rfl)⟩
  rw [if_neg hvoid, if_neg hnull, if_neg hunknown] at h
  split at h
  · cases h
    exact .inr (.inl ⟨_, rfl⟩)
  · rename_i hprim
    split at h
    · cases h
    · rename_i hname
      cases h
      rw [not_or, List.isEmpty_iff, Bool.not_eq_true] at hname
      refine .inr (.inr ⟨rfl, hname.1, ?_, hbase, hprim, hvoid, hnull, hunknown⟩)
      simpa using hname.2

/-- Every type that is read from a text has a spelling of its own. -/
theorem valid_of_parse (h : parse text = .ok t) : t.Valid := by
  -- What is left when the brackets are peeled off does not end in brackets.
  have hprefix := not_isPrefix_of_peel (trim text.toList).reverse
  unfold parse at h
  generalize peel (trim text.toList).reverse = peeled at h hprefix
  obtain ⟨dims, cs⟩ := peeled
  dsimp only at h hprefix
  split at h
  · cases h
  rename_i hdims
  obtain ⟨base, hbase, rfl⟩ := map_eq_ok_iff.1 h
  have hsuffix : ¬['[', ']'] <:+ (String.ofList cs.reverse).toList := fun hsuffix => by
    rw [String.toList_ofList] at hsuffix
    exact hprefix (List.reverse_suffix.1 hsuffix)
  rcases ofBase_eq_ok hbase hsuffix with ⟨rfl, hvoid⟩ | ⟨p, rfl⟩ | ⟨rfl, hname⟩
  · rcases hvoid with rfl | rfl | rfl <;> trivial
  · split
    · trivial
    · exact ⟨by omega, by omega⟩
  · split
    · exact hname
    · exact ⟨hname, by omega, by omega⟩

/-- Reading brings a text to the one spelling of its type: what is read is a type with a spelling of
its own, which is read as the same type; and every such type is read from its spelling. -/
theorem parse_normalises :
    (∀ text t, parse text = .ok t → t.Valid ∧ parse t.render = .ok t) ∧
      ∀ t : Ty, t.Valid → parse t.render = .ok t := by
  refine ⟨fun text t h => ?_, fun t => parse_render⟩
  have hvalid := valid_of_parse h
  exact ⟨hvalid, parse_render hvalid⟩

/-- `parse_normalises` at a text with blanks of several kinds and a name with a bracket in it. -/
theorem bracketed_normalises :
    parse "\u2003[int \t[]\u00a0[] " = .ok (.array (.object ⟨"[int"⟩) 2) ∧
      (Ty.array (.object ⟨"[int"⟩) 2).Valid ∧
      (Ty.array (.object ⟨"[int"⟩) 2).render = "[int[][]" ∧
      parse "[int[][]" = .ok (.array (.object ⟨"[int"⟩) 2) := by
  have hparse : parse "\u2003[int \t[]\u00a0[] " = .ok (.array (.object ⟨"[int"⟩) 2) := by
    decide +kernel
  have hrender : (Ty.array (.object ⟨"[int"⟩) 2).render = "[int[][]" := by decide +kernel
  obtain ⟨hvalid, -⟩ := parse_normalises.1 _ _ hparse
  exact ⟨hparse, hvalid, hrender, hrender ▸ parse_normalises.2 _ hvalid⟩

end Spellings

end Ir.Ty

end BytecodeLowering
