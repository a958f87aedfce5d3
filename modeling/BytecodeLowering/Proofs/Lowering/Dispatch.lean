import BytecodeLowering.Proofs.Lowering.Labels
import BytecodeLowering.Proofs.Lowering.Relabel

/-!
# Dispatch of switches

A switch is lowered to one instruction, which goes to the same targets. A switch with two cases for
one value is not lowered.

* `Spans`: the values are all those from one up to another.
* `two_le_count_of_firstTwin?`, `spans_of_consecutive`, `consecutive_of_spans`: what is looked for
  among sorted values, in terms of the values in any order.
* `switchInsn_eq_tableSwitch_iff`: the instruction is a table iff the keys span a range.
* `Dispatches`: the instructions that stand for a switch.
* `Loadable`, `loadOperand_ok_iff`: the operands that can be pushed.
* `lowerSwitch_run_eq`: the lowering of a switch whose targets have labels.
* `lowerSwitch_dispatches`: every switch of a body with a layout is refused, fails with its key, or
  stands in the code.
* `not_dispatched_of_void`: there are keys with which it fails.
-/

namespace BytecodeLowering.Lowering

open Ir Machine

section Values

variable {keys values : List Int32} {min max v : Int32}

/-- The first twin of ascending values is the least value that stands among them twice. -/
theorem two_le_count_of_firstTwin? (hsorted : keys.Pairwise fun a b => a.toInt ≤ b.toInt)
    (h : firstTwin? keys = some v) : 2 ≤ keys.count v ∧ ∀ w, 2 ≤ keys.count w → v ≤ w := by
  induction keys with
  | nil => cases h
  | cons a keys ih =>
    cases keys with
    | nil => cases h
    | cons b rest =>
      obtain ⟨hhead, htail⟩ := List.pairwise_cons.1 hsorted
      -- The first two values are twins, or the first one stands there once and is none.
      unfold firstTwin? at h
      split at h
      · rename_i heq
        rw [← Option.some.inj h, ← heq]
        refine ⟨by simp, fun w hw => Int32.le_iff_toInt_le.2 ?_⟩
        -- The first value is the least of all.
        have hmem : w ∈ a :: a :: rest := List.count_pos_iff.1 (Nat.zero_lt_of_lt hw)
        rcases List.mem_cons.1 hmem with rfl | hmem
        · exact Int.le_refl _
        · exact hhead w (heq ▸ hmem)
      · rename_i hne
        obtain ⟨hcount, hleast⟩ := ih htail h
        refine ⟨hcount.trans List.count_le_count_cons, fun w hw => hleast w ?_⟩
        have hwa : a ≠ w := by
          rintro rfl
          rw [List.count_cons_self] at hw
          exact notMem_of_ascending hsorted hne (List.count_pos_iff.1 (Nat.lt_of_succ_le
            (Nat.le_of_succ_le_succ hw)))
        rwa [List.count_cons_of_ne hwa] at hw

/-- The values are all those from one up to another. -/
def Spans (values : List Int32) (min max : Int32) : Prop :=
  min ≤ max ∧ ∀ k, k ∈ values ↔ min ≤ k ∧ k ≤ max

/-- The order of the values does not matter for this. -/
theorem Spans.congr (h : ∀ k, k ∈ keys ↔ k ∈ values) : Spans keys min max ↔ Spans values min max :=
  and_congr_right fun _ => forall_congr' fun k => iff_congr (h k) Iff.rfl

/-- Ascending values that span a range start and stop where the range does. -/
theorem ends_of_spans (hsorted : keys.Pairwise fun a b => a.toInt < b.toInt)
    (h : Spans keys min max) : keys.head? = some min ∧ keys.getLast? = some max := by
  obtain ⟨hle, hmem⟩ := h
  have hmin : min ∈ keys := (hmem min).2 ⟨Int32.le_refl min, hle⟩
  have hmax : max ∈ keys := (hmem max).2 ⟨hle, Int32.le_refl max⟩
  -- Both ends are keys, and a key in front of the first one or behind the last one would be out of
  -- the range.
  constructor
  · cases keys with
    | nil => cases hmin
    | cons a rest =>
      rcases List.mem_cons.1 hmin with rfl | hrest
      · rfl
      · have hlt := (List.pairwise_cons.1 hsorted).1 min hrest
        have hge := Int32.le_iff_toInt_le.1 ((hmem a).1 List.mem_cons_self).1
        omega
  · obtain ⟨front, last, rfl⟩ := (List.eq_nil_or_concat' keys).resolve_left
      (List.ne_nil_of_mem hmax)
    rw [List.getLast?_append, List.getLast?_singleton]
    rcases List.mem_append.1 hmax with hfront | hlast
    · have hlt := (List.pairwise_append.1 hsorted).2.2 max hfront last (List.mem_singleton_self _)
      have hge := Int32.le_iff_toInt_le.1 ((hmem last).1 (by simp)).2
      omega
    · rw [List.mem_singleton.1 hlast]
      rfl

/-- Consecutive values span the range from the first one up to the last. -/
theorem spans_of_consecutive (hmin : keys.head? = some min) (hmax : keys.getLast? = some max)
    (h : consecutive keys) : Spans keys min max := by
  have hfirst : min ∈ keys := List.mem_of_mem_head? hmin
  refine ⟨(le_of_mem_consecutive hmin hmax h hfirst).2, fun k => ?_⟩
  constructor
  · exact le_of_mem_consecutive hmin hmax h
  · rintro ⟨hmink, hkmax⟩
    exact List.mem_of_getElem? (getElem?_of_consecutive hmin hmax h hmink hkmax)

/-- Behind the first two of ascending values that span a range comes none between them. -/
theorem toInt_second_of_spans {a b : Int32} {rest : List Int32}
    (hsorted : (a :: b :: rest).Pairwise fun a b => a.toInt < b.toInt)
    (h : Spans (a :: b :: rest) min max) : b.toInt = a.toInt + 1 := by
  obtain ⟨hhead, htail⟩ := List.pairwise_cons.1 hsorted
  have hle : a.toInt + 1 ≤ b.toInt := hhead b List.mem_cons_self
  have hmin := Int32.le_iff_toInt_le.1 ((h.2 a).1 List.mem_cons_self).1
  have hmax := Int32.le_iff_toInt_le.1 ((h.2 b).1 (by simp)).2
  -- The value behind the first one is an integer of 32 bits, as there is a greater one.
  have hnext : (Int32.ofInt (a.toInt + 1)).toInt = a.toInt + 1 :=
    Int32.toInt_ofInt_of_le (Int.le_add_one a.le_toInt) (Int.lt_of_le_of_lt hle b.toInt_lt)
  have hmem : Int32.ofInt (a.toInt + 1) ∈ a :: b :: rest := by
    rw [h.2, Int32.le_iff_toInt_le, Int32.le_iff_toInt_le]
    omega
  -- It is not the first one, and the ones behind the second are too great.
  rcases List.mem_cons.1 hmem with heq | hmem
  · rw [heq] at hnext
    omega
  rcases List.mem_cons.1 hmem with heq | hmem
  · rw [← heq, hnext]
  · have hlt := (List.pairwise_cons.1 htail).1 _ hmem
    omega

/-- Without the first one they span the rest of the range. -/
theorem spans_tail {a b : Int32} {rest : List Int32}
    (hsorted : (a :: b :: rest).Pairwise fun a b => a.toInt < b.toInt)
    (h : Spans (a :: b :: rest) min max) : Spans (b :: rest) b max := by
  obtain ⟨hhead, htail⟩ := List.pairwise_cons.1 hsorted
  -- The keys ascend, so that `a` alone is below `b`.
  refine ⟨((h.2 b).1 (by simp)).2, fun k => ⟨fun hk => ?_, fun ⟨hbk, hkmax⟩ => ?_⟩⟩
  · refine ⟨Int32.le_iff_toInt_le.2 ?_, ((h.2 k).1 (List.mem_cons_of_mem a hk)).2⟩
    rcases List.mem_cons.1 hk with rfl | hk
    · exact Int.le_refl _
    · exact Int.le_of_lt ((List.pairwise_cons.1 htail).1 k hk)
  · have hab := hhead b List.mem_cons_self
    have hmin := Int32.le_iff_toInt_le.1 ((h.2 a).1 List.mem_cons_self).1
    rw [Int32.le_iff_toInt_le] at hbk
    have hk : k ∈ a :: b :: rest := (h.2 k).2 ⟨Int32.le_iff_toInt_le.2 (by omega), hkmax⟩
    refine (List.mem_cons.1 hk).resolve_left ?_
    rintro rfl
    omega

/-- Ascending values that span a range are consecutive. -/
theorem consecutive_of_spans (hsorted : keys.Pairwise fun a b => a.toInt < b.toInt)
    (h : Spans keys min max) : consecutive keys := by
  -- The range starts at the first value, so that it is another one for the rest.
  induction keys generalizing min with
  | nil => rfl
  | cons a keys ih =>
    cases keys with
    | nil => rfl
    | cons b rest =>
      simp only [consecutive, Bool.and_eq_true, decide_eq_true_eq]
      exact ⟨toInt_second_of_spans hsorted h, ih hsorted.of_cons (spans_tail hsorted h)⟩

end Values

section Instruction

variable {cases : List (Int32 × Label)} {default : Label} {min max : Int32}

/-- The instruction for a switch is a table from one key up to another iff the keys span that
range. -/
theorem switchInsn_eq_tableSwitch_iff
    (hsorted : (cases.map Prod.fst).Pairwise fun a b => a.toInt < b.toInt) :
    (∃ l ls, switchInsn cases default = .tableSwitch min max l ls) ↔
      Spans (cases.map Prod.fst) min max := by
  constructor
  · rintro ⟨l, ls, h⟩
    unfold switchInsn at h
    dsimp only at h
    split at h
    · rename_i first last hfirst hlast
      split at h
      · rename_i hconsecutive
        cases h
        exact spans_of_consecutive hfirst hlast hconsecutive
      · cases h
    · cases h
  · -- The ends of the range are the first and the last key, and the keys in between follow one
    -- another.
    intro h
    obtain ⟨hmin, hmax⟩ := ends_of_spans hsorted h
    simp only [switchInsn, hmin, hmax, consecutive_of_spans hsorted h, if_true]
    exact ⟨_, _, rfl⟩

/-- Otherwise it is a list of keys. -/
theorem switchInsn_cases (cases : List (Int32 × Label)) (default : Label) :
    (∃ min max l ls, switchInsn cases default = .tableSwitch min max l ls) ∨
      ∃ l keys ls, switchInsn cases default = .lookupSwitch l keys ls := by
  unfold switchInsn
  dsimp only
  split
  · split
    · exact .inl ⟨_, _, _, _, rfl⟩
    · exact .inr ⟨_, _, _, rfl⟩
  · exact .inr ⟨_, _, _, rfl⟩

end Instruction

/-- An instruction that stands for a switch with the given cases. -/
structure Dispatches (c : MethodContext) (values : List Int32) (targets : List StmtId)
    (default : StmtId) (i : Insn) : Prop where
  /-- It is a table iff the values span a range, namely of that range. -/
  table : ∀ min max, (∃ l ls, i = .tableSwitch min max l ls) ↔ Spans values min max
  /-- It is a list of keys otherwise. -/
  lookup : (∃ l keys ls, i = .lookupSwitch l keys ls) ↔ ¬∃ min max, Spans values min max
  /-- There is a label for each key of the table, or for each of the listed keys, which ascend. -/
  formed : i.Formed
  /-- It takes a key, whichever it is, and goes to the label of the target for it. -/
  goes : ∀ key stack, ∃ l, targetLabel c (switchTarget values targets default key) = .ok l ∧
    i.choose (.int key :: stack) = .done (some l, stack)

section Key

variable {slots : Slots} {p : Progress} {l : Local} {x : Binding}

/-- Where a local is when it is asked for: where it is bound, or else where it is bound first, if it
ends within the slots of a method there. -/
def Slots.Finds (slots : Slots) (l : Local) (x : Binding) : Prop :=
  slots.binding? l = some x ∨
    slots.binding? l = none ∧ slots.fresh l = x ∧ Slots.behind l x ≤ slotLimit

/-- The operands that can be pushed. -/
inductive Loadable (slots : Slots) : Operand → Prop
  /-- A constant for which there is an instruction. -/
  | const {c : Constant} {i : Insn} : constantCode c = .ok i → Loadable slots (.const c)
  /-- A local on the operand stack, which is in place already. -/
  | stack {l : Local} : slots.Finds l .stack → Loadable slots (.var l)
  /-- A local in a slot, unless its type is that of no value. -/
  | slot {l : Local} {n : Nat} : slots.Finds l (.slot n) → l.ty ≠ .void → Loadable slots (.var l)

/-- A local has a place where it is found. -/
theorem exists_place_iff : (∃ p', place l p = .ok (x, p')) ↔ p.slots.Finds l x := by
  simp only [place_run_iff, Slots.resolve_ok_iff, Slots.bind_ok_iff, Slots.Finds]
  constructor
  · rintro ⟨_, _, ⟨hbound, -⟩ | ⟨hnone, hfresh, hfits, -⟩, -⟩
    · exact .inl hbound
    · exact .inr ⟨hnone, hfresh, hfits⟩
  · rintro (hbound | ⟨hnone, hfresh, hfits⟩)
    · exact ⟨_, _, .inl ⟨hbound, rfl⟩, rfl⟩
    · exact ⟨_, _, .inr ⟨hnone, hfresh, hfits, rfl⟩, rfl⟩

/-- There is an instruction that loads values of a type unless it is that of no value. -/
theorem exists_loadOp_iff {t : Ty} : (∃ o, loadOp t.category = .ok o) ↔ t ≠ .void := by
  cases t with
  | prim q => cases q <;> simp [Ty.category, Prim.category, loadOp]
  | void => simp [Ty.category, loadOp, unsupported]
  | null => simp [Ty.category, loadOp]
  | object n => simp [Ty.category, loadOp]
  | array base dims => simp [Ty.category, loadOp]
  | unknown => simp [Ty.category, loadOp]

/-- An operand can be pushed iff it is one of these. -/
theorem loadOperand_ok_iff {op : Operand} :
    (∃ r, loadOperand op p = .ok r) ↔ Loadable p.slots op := by
  cases op with
  | const c =>
    simp only [Prod.exists, loadConst_run_iff]
    constructor
    · rintro ⟨_, _, i, hi, -, -⟩
      exact .const hi
    · rintro ⟨hi⟩
      exact ⟨_, _, _, hi, rfl, rfl⟩
  | var l =>
    simp only [Prod.exists, loadOperand, loadLocal_run_iff, moveCode_eq_ok_iff]
    constructor
    · rintro ⟨_, p', x, hplace, ⟨rfl, -⟩ | ⟨n, o, rfl, ho, -⟩⟩
      · exact .stack (exists_place_iff.1 ⟨p', hplace⟩)
      · exact .slot (exists_place_iff.1 ⟨p', hplace⟩) (exists_loadOp_iff.1 ⟨o, ho⟩)
    · intro h
      cases h with
      | stack hfinds =>
        obtain ⟨p', hplace⟩ := exists_place_iff.2 hfinds
        exact ⟨_, p', _, hplace, .inl ⟨rfl, rfl⟩⟩
      | slot hfinds hty =>
        obtain ⟨p', hplace⟩ := exists_place_iff.2 hfinds
        obtain ⟨o, ho⟩ := exists_loadOp_iff.2 hty
        exact ⟨_, p', _, hplace, .inr ⟨_, o, rfl, ho, rfl⟩⟩

end Key

section Lowering

variable {c : MethodContext} {values : List Int32} {targets : List StmtId} {default : StmtId}
  {label : Label} {cases : List (Int32 × Label)}

/-- The sorted keys are the values of the switch in another order. -/
theorem keys_perm_values (hlength : values.length = targets.length)
    (hcases : List.Forall₂ (fun x y => x.1 = y.1 ∧ targetLabel c x.2 = .ok y.2)
      (values.zip targets) cases) :
    ((ascending cases).map Prod.fst).Perm values := by
  have hkeys : cases.map Prod.fst = values := by
    rw [keys_cases hcases, List.map_fst_zip (Nat.le_of_eq hlength)]
  exact ((List.mergeSort_perm cases _).map Prod.fst).trans (.of_eq hkeys)

/-- A switch whose targets have labels is refused for a value that is found twice, before its key is
looked at; otherwise it is the code of its key and one instruction. -/
theorem lowerSwitch_run_eq (hlabel : targetLabel c default = .ok label)
    (hcases : List.Forall₂ (fun x y => x.1 = y.1 ∧ targetLabel c x.2 = .ok y.2)
      (values.zip targets) cases) (key : Operand) (p : Progress) :
    lowerSwitch c key values targets default p =
      match firstTwin? ((ascending cases).map Prod.fst) with
      | some v => .error (.inconsistent (.repeatedCase v))
      | none => (loadOperand key p).map fun (code, p') =>
          (code ++ [switchInsn (ascending cases) label], p') := by
  have hmapM : (((values.zip targets).mapM fun x =>
      (liftM ((targetLabel c x.2).map fun l => (x.1, l)) : Lower (Int32 × Label))) p) =
        .ok (cases, p) := by
    refine mapM_run_iff.2 (Lowers.lift_iff.2 ⟨hcases.imp fun x y hxy => ?_, rfl⟩)
    exact map_eq_ok_iff.2 ⟨y.2, hxy.2, by rw [hxy.1]⟩
  rw [lowerSwitch, run_bind_of_ok (lift_run_iff.2 ⟨hlabel, rfl⟩), run_bind_of_ok hmapM, ascending]
  cases firstTwin? ((cases.mergeSort fun a b => a.1.toInt ≤ b.1.toInt).map Prod.fst) with
  | some v => rfl
  | none =>
    -- Behind the check only the key can fail.
    change (loadOperand key p >>= _) = _
    cases loadOperand key p <;> rfl

/-- The instruction for the sorted cases of a switch stands for it. -/
theorem dispatches_switchInsn (hlength : values.length = targets.length)
    (hlabel : targetLabel c default = .ok label)
    (hcases : List.Forall₂ (fun x y => x.1 = y.1 ∧ targetLabel c x.2 = .ok y.2)
      (values.zip targets) cases) (htwin : firstTwin? ((ascending cases).map Prod.fst) = none) :
    Dispatches c values targets default (switchInsn (ascending cases) label) := by
  -- Without a repeated key, the sorted cases have the keys of the switch in a strict order.
  have hnodup := nodup_ascending htwin
  have hperm := keys_perm_values hlength hcases
  have hsorted := sorted_ascending htwin
  have htable : ∀ min max,
      (∃ l ls, switchInsn (ascending cases) label = .tableSwitch min max l ls) ↔
        Spans values min max := fun min max =>
    (switchInsn_eq_tableSwitch_iff hsorted).trans (Spans.congr fun _ => hperm.mem_iff)
  refine ⟨htable, ?_, formed_switchInsn htwin, fun key stack => ?_⟩
  · simp only [← htable]
    rcases switchInsn_cases (ascending cases) label with ⟨min, max, l, ls, h⟩ | ⟨l, keys, ls, h⟩
    · simp [h]
    · simp [h]
  · exact ⟨_, targetLabel_switchTarget hlabel hcases hnodup, choose_switchInsn hnodup⟩

end Lowering

variable {b : Body} {lines : Bool} {layout : Layout} {m : Method} {s : Stmt} {key : Operand}
  {values : List Int32} {targets : List StmtId} {default : StmtId}

/-- A switch of a body with a layout that has two cases for one value is refused for the least such
value, whatever its key is. Any other is lowered to the code of its key and one instruction, which
stands for it, if the key can be pushed, and fails like its key if not. -/
theorem lowerSwitch_dispatches (h : Layout.ofBody b lines = .ok layout) (hs : s ∈ b.stmts)
    (hkind : s.kind = .switch key values targets default) :
    (¬values.Nodup → ∃ v, 2 ≤ values.count v ∧ (∀ w, 2 ≤ values.count w → v ≤ w) ∧
      ∀ p, lowerSwitch ⟨m, b, layout, layout.labels⟩ key values targets default p =
        .error (.inconsistent (.repeatedCase v))) ∧
    (values.Nodup → ∃ i, Dispatches ⟨m, b, layout, layout.labels⟩ values targets default i ∧
      ∀ p : Progress,
        (Loadable p.slots key → ∃ code p', loadOperand key p = .ok (code, p') ∧
          lowerSwitch ⟨m, b, layout, layout.labels⟩ key values targets default p =
            .ok (code ++ [i], p')) ∧
        (¬Loadable p.slots key → ∃ e, loadOperand key p = .error e ∧
          lowerSwitch ⟨m, b, layout, layout.labels⟩ key values targets default p = .error e)) := by
  have hlength := Layout.switch_length h hs hkind
  -- All targets have labels in a body with a layout, so that these are no reason to refuse it.
  have htargets : ∀ t ∈ targets ++ [default],
      ∃ l, targetLabel ⟨m, b, layout, layout.labels⟩ t = .ok l := fun t ht =>
    exists_targetLabel h hs (by rwa [hkind]) (by rw [hkind]; nofun)
  obtain ⟨label, hlabel⟩ := htargets default (by simp)
  obtain ⟨cases, hcases⟩ := exists_cases fun x (hx : x ∈ values.zip targets) =>
    htargets x.2 (List.mem_append_left _ (List.of_mem_zip hx).2)
  have hperm := keys_perm_values hlength hcases
  have hrun := lowerSwitch_run_eq hlabel hcases key
  cases htwin : firstTwin? ((ascending cases).map Prod.fst) with
  | some v =>
    simp only [htwin] at hrun
    obtain ⟨hcount, hleast⟩ := two_le_count_of_firstTwin? (pairwise_ascending cases) htwin
    -- How often a value is found does not depend on the order.
    simp only [hperm.count_eq] at hcount hleast
    refine ⟨fun _ => ⟨v, hcount, hleast, hrun⟩, fun hnodup => ?_⟩
    have honce := List.nodup_iff_count_le_one.1 hnodup v
    omega
  | none =>
    simp only [htwin] at hrun
    have hdispatches := dispatches_switchInsn hlength hlabel hcases htwin
    refine ⟨fun hnot => absurd (hperm.nodup_iff.1 (nodup_ascending htwin)) hnot,
      fun _ => ⟨_, hdispatches, fun p => ⟨fun hload => ?_, fun hload => ?_⟩⟩⟩
    · obtain ⟨⟨code, p'⟩, hcode⟩ := loadOperand_ok_iff.2 hload
      exact ⟨code, p', hcode, by rw [hrun, hcode]; rfl⟩
    · rw [← loadOperand_ok_iff, not_exists, ← exists_error_iff] at hload
      obtain ⟨e, he⟩ := hload
      exact ⟨e, he, by rw [hrun, he]; rfl⟩

section Brink

/-- The key of the switches of `brinkBody`. -/
def brinkKey : Operand :=
  .var ⟨"k", .prim .int, .ordinary⟩

/-- A body with two switches over values at the ends of the range of integers: the first one has two
cases for two of them each, and the values of the second one span a range. -/
def brinkBody : Body where
  locals := [⟨"k", .prim .int, .ordinary⟩]
  stmts := [
    ⟨⟨0⟩, none, .switch brinkKey [2147483647, 5, -2147483648, 2147483647, 5]
      [⟨1⟩, ⟨2⟩, ⟨3⟩, ⟨2⟩, ⟨1⟩] ⟨3⟩⟩,
    ⟨⟨1⟩, none, .switch brinkKey [2147483646, 2147483645, 2147483647] [⟨2⟩, ⟨3⟩, ⟨0⟩] ⟨3⟩⟩,
    ⟨⟨2⟩, none, .nop⟩, ⟨⟨3⟩, none, .returnVoid⟩]
  flow := ⟨[⟨⟨0⟩, [⟨0⟩], [⟨1⟩, ⟨2⟩, ⟨3⟩], []⟩, ⟨⟨1⟩, [⟨1⟩], [⟨2⟩, ⟨3⟩, ⟨0⟩], []⟩,
    ⟨⟨2⟩, [⟨2⟩], [⟨3⟩], []⟩, ⟨⟨3⟩, [⟨3⟩], [], []⟩]⟩

/-- The layout of `brinkBody`. -/
def brinkLayout : Layout where
  order := [⟨0⟩, ⟨1⟩, ⟨2⟩, ⟨3⟩]
  traps := []
  ranges := []
  handlers := []
  targets := [⟨1⟩, ⟨2⟩, ⟨3⟩, ⟨2⟩, ⟨1⟩, ⟨3⟩, ⟨2⟩, ⟨3⟩, ⟨0⟩, ⟨3⟩]
  continuations := [(⟨2⟩, ⟨3⟩)]

/-- What the switches of `brinkBody` are lowered in view of. -/
def brinkContext : MethodContext :=
  ⟨bare brinkBody, brinkBody, brinkLayout, brinkLayout.labels⟩

/-- `lowerSwitch_dispatches` at both switches of `brinkBody`: one is refused for the lesser of its
repeated values, and one is a table up to the greatest integer, behind the code of its key. -/
theorem brink_dispatches :
    Layout.ofBody brinkBody false = .ok brinkLayout ∧
      (∀ p, lowerSwitch brinkContext brinkKey [2147483647, 5, -2147483648, 2147483647, 5]
        [⟨1⟩, ⟨2⟩, ⟨3⟩, ⟨2⟩, ⟨1⟩] ⟨3⟩ p = .error (.inconsistent (.repeatedCase 5))) ∧
      ∃ l ls p', Dispatches brinkContext [2147483646, 2147483645, 2147483647] [⟨2⟩, ⟨3⟩, ⟨0⟩] ⟨3⟩
          (.tableSwitch 2147483645 2147483647 l ls) ∧
        lowerSwitch brinkContext brinkKey [2147483646, 2147483645, 2147483647]
            [⟨2⟩, ⟨3⟩, ⟨0⟩] ⟨3⟩ ⟨{}, []⟩ =
          .ok ([.var .iload 0, .tableSwitch 2147483645 2147483647 l ls], p') := by
  have hlayout : Layout.ofBody brinkBody false = .ok brinkLayout := by cbv
  refine ⟨hlayout, ?_, ?_⟩
  · obtain ⟨v, hcount, hleast, hrun⟩ := (lowerSwitch_dispatches (m := bare brinkBody) hlayout
      (s := brinkBody.stmts[0]) (by simp [brinkBody]) rfl).1 (by decide)
    have hv : v ≤ 5 := hleast 5 (by decide)
    have hmem : v ∈ [2147483647, 5, -2147483648, 2147483647, 5] :=
      List.count_pos_iff.1 (Nat.zero_lt_of_lt hcount)
    obtain rfl : v = 5 := by
      simp only [List.mem_cons, List.not_mem_nil, or_false] at hmem
      rcases hmem with rfl | rfl | rfl | rfl | rfl <;> revert hcount hv <;> decide
    exact hrun
  · obtain ⟨i, hi, hrun⟩ := (lowerSwitch_dispatches (m := bare brinkBody) hlayout
      (s := brinkBody.stmts[1]) (by simp [brinkBody]) rfl).2 (by decide)
    have hspans : Spans [2147483646, 2147483645, 2147483647] 2147483645 2147483647 :=
      (Spans.congr fun _ => (List.Perm.swap _ _ _).mem_iff).1
        (spans_of_consecutive rfl rfl (by decide))
    obtain ⟨l, ls, rfl⟩ := (hi.table _ _).2 hspans
    have hload : Loadable (Progress.mk {} []).slots brinkKey :=
      .slot (n := 0) (.inr ⟨rfl, rfl, by decide⟩) (by decide)
    obtain ⟨code, p', hcode, hlower⟩ := (hrun _).1 hload
    cases hcode
    exact ⟨l, ls, _, hi, hlower⟩

end Brink

section Moot

/-- A body with a switch on a local of no value. -/
def mootBody : Body where
  locals := [⟨"k", .void, .ordinary⟩]
  stmts := [⟨⟨0⟩, none, .switch (.var ⟨"k", .void, .ordinary⟩) [1] [⟨1⟩] ⟨1⟩⟩,
    ⟨⟨1⟩, none, .returnVoid⟩]
  flow := ⟨[⟨⟨0⟩, [⟨0⟩], [⟨1⟩], []⟩, ⟨⟨1⟩, [⟨1⟩], [], []⟩]⟩

/-- The layout of `mootBody`. -/
def mootLayout : Layout where
  order := [⟨0⟩, ⟨1⟩]
  traps := []
  ranges := []
  handlers := []
  targets := [⟨1⟩, ⟨1⟩]
  continuations := []

/-- A switch with one case for each value is not lowered if its key cannot be pushed. -/
theorem not_dispatched_of_void :
    Body.ofStmts mootBody.locals mootBody.stmts [] = .ok mootBody ∧
      Layout.ofBody mootBody false = .ok mootLayout ∧ [(1 : Int32)].Nodup ∧
      lowerSwitch ⟨bare mootBody, mootBody, mootLayout, mootLayout.labels⟩
          (.var ⟨"k", .void, .ordinary⟩) [1] [⟨1⟩] ⟨1⟩ ⟨{}, []⟩ =
        .error (.unsupported .voidLoad) ∧
      lowerMethod ⟨"A"⟩ (bare mootBody) { lineNumbers := false } 0 =
        .error (.inMethod "A.f"
          (some "switch(k) \x7b case 1: goto s1; default: goto s1 \x7d")
          (.unsupported .voidLoad)) :=
  ⟨by cbv, by cbv, by decide, by cbv, by cbv⟩

end Moot

end BytecodeLowering.Lowering
