import BytecodeLowering.Machine.Descriptor
import BytecodeLowering.Proofs.Result

/-!
# Widths of descriptors

The readers of descriptors accept the texts of their grammar with the widths that it gives them, and
no others.

* `Descriptor.type_append`, `Descriptor.types_append`: types in front of other text.
* `Descriptor.exists_of_type`, `Descriptor.exists_of_types`: what is read stands there.
* `fieldWidth_eq_ok`, `methodWidths_eq_ok`: whole descriptors.
* `fieldType_of_fieldWidth`, `methodType_of_methodWidths`: whole texts that are accepted.
* `descriptors_exact`: both directions, and what is refused.
-/

namespace BytecodeLowering.Machine

namespace Descriptor

/-- A type in front of other text is read with its width. -/
theorem type_append {cs : List Char} {w : Nat} (h : FieldType cs w) (rest : List Char) :
    type (cs ++ rest) = .ok (w, rest) := by
  induction h with
  | @narrow c hc =>
    simp only [Descriptor.narrow, List.mem_cons, List.not_mem_nil, or_false] at hc
    rcases hc with rfl | rfl | rfl | rfl | rfl | rfl <;> rfl
  | @wide c hc =>
    simp only [Descriptor.wide, List.mem_cons, List.not_mem_nil, or_false] at hc
    rcases hc with rfl | rfl <;> rfl
  | @object name hname =>
    -- The name has no semicolon, so that the first one is behind it.
    have hdrop : (name ++ ';' :: rest).dropWhile (· ≠ ';') = ';' :: rest := by
      rw [List.dropWhile_append_of_pos ?_]
      · rfl
      · intro c hc
        have hne : c ≠ ';' := by
          rintro rfl
          exact hname hc
        simpa using hne
    have hsplit : 'L' :: name ++ [';'] ++ rest = 'L' :: (name ++ ';' :: rest) := by simp
    rw [hsplit, type]
    simp only [hdrop]
  | @array element w _ ih =>
    rw [List.cons_append, type]
    simp only [ih]

/-- What is read as a type is one of the width that is read. -/
theorem exists_of_type {cs behind : List Char} {w : Nat} (h : type cs = .ok (w, behind)) :
    ∃ t, FieldType t w ∧ cs = t ++ behind := by
  fun_induction type cs generalizing w behind with
  | case1 rest w' behind' hrest ih =>
    cases h
    obtain ⟨t, ht, rfl⟩ := ih hrest
    exact ⟨'[' :: t, .array ht, rfl⟩
  | case3 rest c behind' hdrop =>
    cases h
    -- The name is what stands in front of the first semicolon.
    obtain rfl : c = ';' := by
      have hhead := List.head?_dropWhile_not (fun x => decide (x ≠ ';')) rest
      rw [hdrop] at hhead
      simpa using hhead
    refine ⟨'L' :: rest.takeWhile (· ≠ ';') ++ [';'], .object fun hmem => ?_, ?_⟩
    · simpa using List.all_eq_true.1 List.all_takeWhile _ hmem
    · rw [List.append_assoc, List.cons_append, List.singleton_append, ← hdrop,
        List.takeWhile_append_dropWhile]
  | case5 c rest _ _ hwide =>
    cases h
    exact ⟨[c], .wide hwide, rfl⟩
  | case6 c rest _ _ _ hnarrow =>
    cases h
    exact ⟨[c], .narrow hnarrow, rfl⟩
  | case2 | case4 | case7 | case8 => cases h

/-- A type does not start with a closing parenthesis. -/
theorem head?_ne {cs : List Char} {w : Nat} (h : FieldType cs w) (rest : List Char) :
    ∀ ts, cs ++ rest ≠ ')' :: ts := by
  intro ts heq
  cases h with
  | narrow hc =>
    cases heq
    simp [Descriptor.narrow] at hc
  | wide hc =>
    cases heq
    simp [Descriptor.wide] at hc
  | object => cases heq
  | array => cases heq

/-- The letter for no result is no type. -/
theorem not_fieldType_void (w : Nat) : ¬FieldType ['V'] w := by
  intro h
  cases h with
  | narrow hc => simp [Descriptor.narrow] at hc
  | wide hc => simp [Descriptor.wide] at hc

/-- A sequence of types up to a closing parenthesis is read with the sum of its widths. -/
theorem types_append {cs : List Char} {n : Nat} (h : FieldTypes cs n) (rest : List Char) :
    types (cs ++ ')' :: rest) = .ok (n, rest) := by
  induction h with
  | nil => simp [types]
  | @cons t ts w n ht _ ih =>
    have hbehind := type_append ht (ts ++ ')' :: rest)
    rw [List.append_assoc, types.eq_def]
    split
    · -- Nothing that starts like a type is the end of the sequence.
      rename_i behind heq
      exact absurd heq (head?_ne ht _ behind)
    · split
      · rename_i _ _ heq
        rw [hbehind] at heq
        cases heq
      · rename_i _ _ heq
        rw [hbehind] at heq
        cases heq
        simp only [ih]

/-- What is read as a sequence of types is one, up to a closing parenthesis. -/
theorem exists_of_types {cs result : List Char} {n : Nat} (h : types cs = .ok (n, result)) :
    ∃ ps, FieldTypes ps n ∧ cs = ps ++ ')' :: result := by
  fun_induction types cs generalizing n result with
  | case1 rest =>
    cases h
    exact ⟨[], .nil, rfl⟩
  | case3 cs _ w behind htype n' result' hrest ih =>
    cases h
    obtain ⟨t, ht, rfl⟩ := exists_of_type htype
    obtain ⟨ps, hps, rfl⟩ := ih hrest
    exact ⟨t ++ ps, .cons ht hps, (List.append_assoc _ _ _).symm⟩
  | case2 | case4 => cases h

end Descriptor

open Descriptor

/-- A field descriptor has the width of its type. -/
theorem fieldWidth_eq_ok {desc : String} {w : Nat} (h : FieldType desc.toList w) :
    fieldWidth desc = .ok w := by
  have htype := type_append h []
  rw [List.append_nil] at htype
  simp only [fieldWidth, htype]

/-- A text with a width is a field descriptor of that width. -/
theorem fieldType_of_fieldWidth {desc : String} {w : Nat} (h : fieldWidth desc = .ok w) :
    FieldType desc.toList w := by
  unfold fieldWidth at h
  split at h
  · cases h
  · rename_i htype
    cases h
    -- No text is left behind the type.
    obtain ⟨t, ht, heq⟩ := exists_of_type htype
    rwa [heq, List.append_nil]
  · cases h

/-- A method descriptor has the widths of its parameters and of its result. -/
theorem methodWidths_eq_ok {desc : String} {args ret : Nat} (h : MethodType desc.toList args ret) :
    methodWidths desc = .ok (args, ret) := by
  unfold methodWidths
  generalize desc.toList = cs at h
  cases h with
  | @mk ps r args ret hparams hret =>
    simp only [List.cons_append, types_append hparams]
    cases hret with
    | void => rfl
    | value hr =>
      have hwidth : fieldWidth (String.ofList r) = .ok ret :=
        fieldWidth_eq_ok (by rwa [String.toList_ofList])
      split
      · rename_i heq
        cases heq
      · -- No type is spelled like the missing result.
        rename_i heq
        cases heq
        exact absurd hr (not_fieldType_void _)
      · rename_i heq
        cases heq
        rw [hwidth]
        rfl

/-- A text with the widths of a method is a method descriptor of those widths. -/
theorem methodType_of_methodWidths {desc : String} {args ret : Nat}
    (h : methodWidths desc = .ok (args, ret)) : MethodType desc.toList args ret := by
  unfold methodWidths at h
  split at h
  · rename_i rest hdesc
    rw [hdesc]
    split at h
    · cases h
    · rename_i htypes
      cases h
      obtain ⟨ps, hps, rfl⟩ := exists_of_types htypes
      exact .mk hps .void
    · rename_i result _ htypes
      obtain ⟨ret', hret, heq⟩ := map_eq_ok_iff.1 h
      cases heq
      obtain ⟨ps, hps, rfl⟩ := exists_of_types htypes
      have hresult := fieldType_of_fieldWidth hret
      rw [String.toList_ofList] at hresult
      exact .mk hps (.value hresult)
  · cases h

/-- The readers of descriptors accept the texts of their grammar, with the widths that it gives
them, and no others: every other text is refused. -/
theorem descriptors_exact (desc : String) :
    (∀ w, fieldWidth desc = .ok w ↔ FieldType desc.toList w) ∧
      (∀ args ret, methodWidths desc = .ok (args, ret) ↔ MethodType desc.toList args ret) ∧
      ((∃ e : DescriptorError, fieldWidth desc = .error e) ↔ ∀ w, ¬FieldType desc.toList w) ∧
      ((∃ e : DescriptorError, methodWidths desc = .error e) ↔
        ∀ args ret, ¬MethodType desc.toList args ret) := by
  have hfield : ∀ w, fieldWidth desc = .ok w ↔ FieldType desc.toList w := fun w =>
    ⟨fieldType_of_fieldWidth, fieldWidth_eq_ok⟩
  have hmethod : ∀ args ret, methodWidths desc = .ok (args, ret) ↔
      MethodType desc.toList args ret := fun args ret =>
    ⟨methodType_of_methodWidths, methodWidths_eq_ok⟩
  refine ⟨hfield, hmethod, ?_, ?_⟩
  · exact exists_error_iff.trans (forall_congr' fun w => not_congr (hfield w))
  · exact exists_error_iff.trans (Prod.forall.trans
      (forall₂_congr fun args ret => not_congr (hmethod args ret)))

/-- The name of a class may hold what else would end the parameters or start an array. -/
example : methodWidths "(JL[(é)V;[[D)D" = .ok (4, 2) := by decide +kernel

end BytecodeLowering.Machine
