import BytecodeLowering.Proofs.Ir.Run
import BytecodeLowering.Proofs.Lowering.Parts
import BytecodeLowering.Proofs.Machine.Run

/-!
# Branches taken

The jump that a branch is lowered to is taken when the branch is.

* `choose_ifIntOp`, `holds_compareLong`: comparisons of 32-bit and of 64-bit integers.
* `nodup_ascending`, `formed_switchInsn`: the cases of a switch have keys of their own, in the form
  that its instruction needs.
* `choose_switchInsn`, `targetLabel_switchTarget`: the instruction for a switch goes to the label of
  the target for the key.
-/

namespace BytecodeLowering.Lowering

open Ir Machine

section Comparisons

variable {op : CmpOp} {a b : Int32} {l : Label} {stack : List Value}

/-- A branch by two 32-bit integers is taken if they compare as it says. -/
theorem choose_ifIntOp :
    (Insn.jump (ifIntOp op) l).choose (.int b :: .int a :: stack) =
      .done (if op.holds a.toInt b.toInt then some l else none, stack) := by
  cases op <;> simp [Insn.choose, ifIntOp, Opcode.branches, Opcode.byInts, CmpOp.holds,
    Int32.toInt_inj, Int32.lt_iff_toInt_lt, Int32.le_iff_toInt_le]

/-- A branch by a 32-bit integer is taken if it compares with zero as it says. -/
theorem choose_ifZeroOp :
    (Insn.jump (ifZeroOp op) l).choose (.int a :: stack) =
      .done (if op.holds a.toInt 0 then some l else none, stack) := by
  cases op <;> simp [Insn.choose, ifZeroOp, Opcode.branches, Opcode.byInt, CmpOp.holds,
    ← Int32.toInt_inj, Int32.lt_iff_toInt_lt, Int32.le_iff_toInt_le]

/-- The comparison of two 64-bit integers compares with zero as they do. -/
theorem holds_compareLong {a b : Int64} :
    op.holds (compareLong a b).toInt 0 = op.holds a.toInt b.toInt := by
  have hone : (1 : Int32).toInt = 1 := rfl
  have hzero : (0 : Int32).toInt = 0 := rfl
  have hminus : (-1 : Int32).toInt = -1 := rfl
  unfold compareLong
  -- The comparison tells the two orders and equality apart, by 1, -1 and 0.
  rcases Int.lt_trichotomy b.toInt a.toInt with hlt | heq | hlt
  · rw [if_pos (Int64.lt_iff_toInt_lt.2 hlt), hone]
    cases op <;> simp [CmpOp.holds] <;> omega
  · obtain rfl := Int64.toInt_inj.1 heq
    rw [if_neg (by simp), if_pos rfl, hzero]
    cases op <;> simp [CmpOp.holds]
  · have hne : a ≠ b := by
      rintro rfl
      exact Int.lt_irrefl _ hlt
    rw [if_neg (by rw [Int64.lt_iff_toInt_lt]; omega), if_neg hne, hminus]
    cases op <;> simp [CmpOp.holds] <;> omega

end Comparisons

section Switches

variable {α : Type}

/-- The lookup in a list of entries with keys of their own finds an entry. -/
theorem lookup_eq_some_of_mem {xs : List (Int32 × α)} {k : Int32} {a : α}
    (hnodup : (xs.map Prod.fst).Nodup) (h : (k, a) ∈ xs) : xs.lookup k = some a := by
  obtain ⟨front, rest, rfl⟩ := List.append_of_mem h
  rw [List.lookup_eq_some_iff]
  refine ⟨front, rest, rfl, fun x hx => ?_⟩
  rw [List.map_append, List.map_cons, List.nodup_append] at hnodup
  simpa using (hnodup.2.2 x.1 (List.mem_map_of_mem hx) k List.mem_cons_self).symm

/-- A switch goes to one of its targets. -/
theorem switchTarget_mem {values : List Int32} {targets : List StmtId} {default : StmtId}
    {key : Int32} : switchTarget values targets default key ∈ targets ++ [default] := by
  unfold switchTarget
  cases hfind : (values.zip targets).lookup key with
  | none => simp
  | some t =>
    have hpair : (key, t) ∈ values.zip targets := mem_of_lookup_eq_some hfind
    exact List.mem_append_left _ (List.of_mem_zip hpair).2

/-- The first of ascending values is not repeated behind a second one that is another. -/
theorem notMem_of_ascending {a b : Int32} {rest : List Int32}
    (hsorted : (a :: b :: rest).Pairwise fun a b => a.toInt ≤ b.toInt) (hne : a ≠ b) :
    a ∉ b :: rest := by
  obtain ⟨hhead, htail⟩ := List.pairwise_cons.1 hsorted
  intro hmem
  rcases List.mem_cons.1 hmem with heq | hmem
  · exact hne heq
  -- The value in between would be equal to both.
  · have hab := hhead b List.mem_cons_self
    have hba := (List.pairwise_cons.1 htail).1 a hmem
    exact hne (Int32.toInt_inj.1 (Int.le_antisymm hab hba))

/-- A value that stands twice in an ascending list is found there. -/
theorem nodup_of_firstTwin? {keys : List Int32}
    (hsorted : keys.Pairwise fun a b => a.toInt ≤ b.toInt) (h : firstTwin? keys = none) :
    keys.Nodup := by
  induction keys with
  | nil => exact .nil
  | cons a keys ih =>
    cases keys with
    | nil => simp
    | cons b rest =>
      unfold firstTwin? at h
      split at h
      · cases h
      · rename_i hne
        -- No later value is the first one, because each is at least the second one.
        exact List.nodup_cons.2
          ⟨notMem_of_ascending hsorted hne, ih (List.pairwise_cons.1 hsorted).2 h⟩

/-- A list of consecutive values counts up from its first value. -/
theorem toInt_of_consecutive {keys : List Int32} {a : Int32} (h : consecutive (a :: keys)) {i : Nat}
    {k : Int32} (hk : (a :: keys)[i]? = some k) : k.toInt = a.toInt + i := by
  induction keys generalizing a i with
  | nil =>
    cases i with
    | zero =>
      cases hk
      simp
    | succ i => cases hk
  | cons b rest ih =>
    simp only [consecutive, Bool.and_eq_true, decide_eq_true_eq] at h
    cases i with
    | zero =>
      cases hk
      simp
    | succ i =>
      -- Behind the first value the list counts up from the second one, which is one more.
      rw [List.getElem?_cons_succ] at hk
      rw [ih h.2 hk, h.1]
      omega

/-- Consecutive values count from the first one up to the last one. -/
theorem toInt_last_of_consecutive {keys : List Int32} {min max : Int32}
    (hmin : keys.head? = some min) (hmax : keys.getLast? = some max) (h : consecutive keys) :
    max.toInt + 1 = min.toInt + keys.length := by
  obtain ⟨rest, rfl⟩ := List.head?_eq_some_iff.1 hmin
  rw [List.getLast?_eq_getElem?] at hmax
  rw [toInt_of_consecutive h hmax, List.length_cons]
  omega

/-- A value between the first and the last of consecutive ones is among them, as far behind the
first one as it is greater. -/
theorem getElem?_of_consecutive {keys : List Int32} {min max k : Int32}
    (hmin : keys.head? = some min) (hmax : keys.getLast? = some max) (h : consecutive keys)
    (hmink : min ≤ k) (hkmax : k ≤ max) : keys[(k.toInt - min.toInt).toNat]? = some k := by
  have hlast := toInt_last_of_consecutive hmin hmax h
  rw [Int32.le_iff_toInt_le] at hmink hkmax
  have hlt : (k.toInt - min.toInt).toNat < keys.length := by omega
  obtain ⟨rest, rfl⟩ := List.head?_eq_some_iff.1 hmin
  have hget := List.getElem?_eq_getElem hlt
  rw [hget, Option.some.injEq, ← Int32.toInt_inj, toInt_of_consecutive h hget]
  omega

/-- Consecutive values lie between the first and the last one. -/
theorem le_of_mem_consecutive {keys : List Int32} {min max k : Int32}
    (hmin : keys.head? = some min) (hmax : keys.getLast? = some max) (h : consecutive keys)
    (hk : k ∈ keys) : min ≤ k ∧ k ≤ max := by
  have hlast := toInt_last_of_consecutive hmin hmax h
  obtain ⟨i, hi⟩ := List.getElem?_of_mem hk
  have hlt := (List.getElem?_eq_some_iff.1 hi).1
  obtain ⟨rest, rfl⟩ := List.head?_eq_some_iff.1 hmin
  have hkInt := toInt_of_consecutive h hi
  rw [Int32.le_iff_toInt_le, Int32.le_iff_toInt_le]
  omega

/-- The table of a switch leads to the label of a key, or else to the default. -/
theorem tableLabel_eq {keys : List Int32} {labels : List Label} {min max key : Int32}
    {default : Label} (hlength : keys.length = labels.length) (hmin : keys.head? = some min)
    (hmax : keys.getLast? = some max) (hnodup : keys.Nodup) (h : consecutive keys) :
    tableLabel min max default labels key = ((keys.zip labels).lookup key).getD default := by
  have hfst : (keys.zip labels).map Prod.fst = keys := List.map_fst_zip (Nat.le_of_eq hlength)
  unfold tableLabel
  split
  · rename_i hrange
    -- The key stands as far behind the first key as it is greater.
    obtain ⟨hlt, hkey⟩ := List.getElem?_eq_some_iff.1
      (getElem?_of_consecutive hmin hmax h hrange.1 hrange.2)
    have hlt' : (key.toInt - min.toInt).toNat < labels.length := hlength ▸ hlt
    have hmem : (key, labels[(key.toInt - min.toInt).toNat]) ∈ keys.zip labels := by
      refine List.mem_iff_getElem.2 ⟨_, by rw [List.length_zip]; exact Nat.lt_min.2 ⟨hlt, hlt'⟩, ?_⟩
      rw [List.getElem_zip, hkey]
    rw [List.getElem?_eq_getElem hlt', lookup_eq_some_of_mem (hfst.symm ▸ hnodup) hmem]
  · -- All keys are in the range of the first and the last one.
    rename_i hrange
    have hnone : (keys.zip labels).lookup key = none := by
      rw [List.lookup_eq_none_iff]
      intro x hx
      have hne : key ≠ x.1 := by
        rintro rfl
        exact hrange (le_of_mem_consecutive hmin hmax h (List.of_mem_zip hx).1)
      simpa using hne
    rw [hnone, Option.getD_none]

/-- The instruction for a switch leads to the label of the case for the key, or else to the
default. -/
theorem choose_switchInsn {cases : List (Int32 × Label)} {default : Label} {key : Int32}
    {stack : List Value} (hnodup : (cases.map Prod.fst).Nodup) :
    (switchInsn cases default).choose (.int key :: stack) =
      .done (some ((cases.lookup key).getD default), stack) := by
  have hzip : (cases.map Prod.fst).zip (cases.map Prod.snd) = cases :=
    (List.zip_of_prod rfl rfl).symm
  unfold switchInsn
  dsimp only
  split
  · rename_i min max hmin hmax
    split
    · rename_i hconsecutive
      rw [Insn.choose, tableLabel_eq (by simp) hmin hmax hnodup hconsecutive, hzip]
    · rw [Insn.choose, lookupLabel, hzip]
  · rw [Insn.choose, lookupLabel, hzip]

/-- The cases of a switch in ascending order. -/
def ascending (cases : List (Int32 × Label)) : List (Int32 × Label) :=
  cases.mergeSort fun a b => a.1.toInt ≤ b.1.toInt

theorem pairwise_ascending (cases : List (Int32 × Label)) :
    ((ascending cases).map Prod.fst).Pairwise fun a b => a.toInt ≤ b.toInt := by
  rw [List.pairwise_map]
  have hsorted : (ascending cases).Pairwise fun a b => decide (a.1.toInt ≤ b.1.toInt) :=
    List.pairwise_mergeSort
    (fun a b c hab hbc => by simpa using Int.le_trans (by simpa using hab) (by simpa using hbc))
    (fun a b => by simpa using Int.le_total a.1.toInt b.1.toInt) cases
  simpa only [ascending, decide_eq_true_eq] using hsorted

/-- Cases in ascending order without a value that stands twice have keys of their own. -/
theorem nodup_ascending {cases : List (Int32 × Label)}
    (h : firstTwin? ((ascending cases).map Prod.fst) = none) :
    ((ascending cases).map Prod.fst).Nodup :=
  nodup_of_firstTwin? (pairwise_ascending cases) h

/-- Such cases ascend strictly. -/
theorem sorted_ascending {cases : List (Int32 × Label)}
    (h : firstTwin? ((ascending cases).map Prod.fst) = none) :
    ((ascending cases).map Prod.fst).Pairwise fun a b => a.toInt < b.toInt := by
  refine ((pairwise_ascending cases).and (nodup_ascending h)).imp ?_
  rintro a b ⟨hle, hne⟩
  have hneInt : a.toInt ≠ b.toInt := fun heq => hne (Int32.toInt_inj.1 heq)
  omega

/-- The instruction for a switch has a label for each key of its range, or for each of its keys,
which ascend. -/
theorem formed_switchInsn {cases : List (Int32 × Label)} {default : Label}
    (h : firstTwin? ((ascending cases).map Prod.fst) = none) :
    (switchInsn (ascending cases) default).Formed := by
  have hlength : ((ascending cases).map Prod.fst).length =
      ((ascending cases).map Prod.snd).length := by
    rw [List.length_map, List.length_map]
  unfold switchInsn
  dsimp only
  split
  · rename_i min max hmin hmax
    split
    · rename_i hconsecutive
      rw [Insn.Formed, ← hlength]
      -- Consecutive keys are as many as the range from the first to the last one.
      have hlast := toInt_last_of_consecutive hmin hmax hconsecutive
      omega
    · exact ⟨hlength, sorted_ascending h⟩
  · exact ⟨hlength, sorted_ascending h⟩

/-- The label that a switch goes to is that of its target. -/
theorem targetLabel_switchTarget {c : MethodContext} {values : List Int32} {targets : List StmtId}
    {default : StmtId} {label : Label} {cases : List (Int32 × Label)} {key : Int32}
    (hdefault : targetLabel c default = .ok label)
    (hcases : List.Forall₂ (fun x y => x.1 = y.1 ∧ targetLabel c x.2 = .ok y.2)
      (values.zip targets) cases)
    (hnodup : ((ascending cases).map Prod.fst).Nodup) :
    targetLabel c (switchTarget values targets default key) =
      .ok (((ascending cases).lookup key).getD label) := by
  unfold switchTarget
  cases hlookup : (values.zip targets).lookup key with
  | some t =>
    -- The keys are without repeats, so that sorting the cases changes no lookup.
    obtain ⟨y, hy, hkey, hlabel⟩ := exists_right_of_mem hcases (mem_of_lookup_eq_some hlookup)
    have hmem : (key, y.2) ∈ ascending cases := by
      rw [ascending, List.mem_mergeSort, show key = y.1 from hkey]
      exact hy
    rw [lookup_eq_some_of_mem hnodup hmem, Option.getD_some, Option.getD_some]
    exact hlabel
  | none =>
    have hnone : (ascending cases).lookup key = none := by
      rw [List.lookup_eq_none_iff] at hlookup ⊢
      intro y hy
      rw [ascending, List.mem_mergeSort] at hy
      obtain ⟨x, hx, hkey, -⟩ := exists_left_of_mem hcases hy
      rw [← hkey]
      exact hlookup x hx
    rw [hnone, Option.getD_none, Option.getD_none]
    exact hdefault

end Switches

end BytecodeLowering.Lowering
