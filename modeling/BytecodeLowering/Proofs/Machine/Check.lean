import BytecodeLowering.Machine.Check
import BytecodeLowering.Proofs.Machine.Paths
import BytecodeLowering.Proofs.Machine.Plain
import BytecodeLowering.Proofs.Repeat

/-!
# Well-formed code

* `MethodCode.Linked`: labels are bound once and wherever they are named, and the operands of each
  instruction fit each other.
* `MethodCode.WellFormed`, `MethodCode.Accepted`: besides, local variables lie in the frame. Code is
  accepted if their ends do as words of 16 bits, which start over behind the last slot.
* `MethodCode.check_eq_ok_iff`: the check accepts exactly this code, and so all that is well-formed.
* `wellFormed_of_maxSizes`: what has to be known of code that can be measured, besides.
* `ClassImage.check_eq_ok_iff`: the check accepts exactly the classes that can be told by their
  names, as can their methods, and whose code is accepted.
-/

namespace BytecodeLowering.Machine

theorem Insn.bound?_eq_some_iff {i : Insn} {l : Label} : i.bound? = some l ↔ i = .label l := by
  cases i <;> simp [Insn.bound?]

/-- The labels that are bound are those of the entries that bind them. -/
theorem mem_bound_iff {code : List Insn} {l : Label} :
    l ∈ code.filterMap Insn.bound? ↔ .label l ∈ code := by
  simp [List.mem_filterMap, Insn.bound?_eq_some_iff]

/-- Code whose labels are bound, and whose instructions can be stored. -/
structure MethodCode.Linked (c : MethodCode) : Prop where
  /-- No label is bound twice. -/
  once : (c.insns.filterMap Insn.bound?).Nodup
  /-- Every label that control may be transferred to is bound. -/
  targets : ∀ i ∈ c.insns, ∀ l ∈ i.targets, .label l ∈ c.insns
  /-- The labels of the exception table are bound. -/
  guards : ∀ g ∈ c.guards, ∀ l ∈ g.labels, .label l ∈ c.insns
  /-- Lines start at labels that are bound. -/
  lines : ∀ n l, .lineNumber n l ∈ c.insns → .label l ∈ c.insns
  /-- The operands of each instruction fit each other. -/
  formed : ∀ i ∈ c.insns, i.Formed

/-- Code without defects. -/
structure MethodCode.WellFormed (c : MethodCode) : Prop extends c.Linked where
  /-- All slots of a local variable lie in the frame. -/
  locals : ∀ op slot, .var op slot ∈ c.insns → slot + op.varWidth?.getD 1 ≤ c.sizes.locals

/-- Code that can be stored. -/
structure MethodCode.Accepted (c : MethodCode) : Prop extends c.Linked where
  /-- The end of a local variable, as a word, lies in the frame. -/
  ends : ∀ op slot, .var op slot ∈ c.insns →
    slotEnd slot (op.varWidth?.getD 1) ≤ c.sizes.locals

/-- The end of a local variable is not greater as a word. -/
theorem MethodCode.WellFormed.accepted {c : MethodCode} (h : c.WellFormed) : c.Accepted where
  toLinked := h.toLinked
  ends op slot hi := (slotEnd_le _ _).trans (h.locals op slot hi)

/-- Keys ascend iff each is less than all behind it. -/
theorem ascending_iff {keys : List Int32} :
    ascending keys ↔ keys.Pairwise fun a b => a.toInt < b.toInt := by
  induction keys with
  | nil => simp [ascending]
  | cons a rest ih =>
    cases rest with
    | nil => simp [ascending]
    | cons b rest =>
      rw [ascending, Bool.and_eq_true, decide_eq_true_eq, ih, List.pairwise_cons (a := a)]
      -- The key is less than the next one, and through it less than all others.
      refine and_congr_left fun hrest => ?_
      rw [List.forall_mem_cons]
      refine (and_iff_left_of_imp ?_).symm
      intro hab k hk
      exact hab.trans ((List.pairwise_cons.1 hrest).1 k hk)

theorem firstUnbound?_eq_none_iff {bound ls : List Label} :
    firstUnbound? bound ls = none ↔ ∀ l ∈ ls, l ∈ bound := by
  simp [firstUnbound?, List.find?_eq_none]

/-- An instruction passes the check iff the labels that it names are bound, its local variable ends
in the frame, and its operands fit each other. -/
theorem Insn.check_eq_ok_iff {bound : List Label} {locals : Nat} {method : String} {i : Insn} :
    i.check bound locals method = .ok () ↔ (∀ l ∈ i.targets, l ∈ bound) ∧
      (∀ n l, i = .lineNumber n l → l ∈ bound) ∧
      (∀ op slot, i = .var op slot → slotEnd slot (op.varWidth?.getD 1) ≤ locals) ∧ i.Formed := by
  rw [← firstUnbound?_eq_none_iff]
  unfold Insn.check
  -- The targets are looked at first, then what is particular to the form of the instruction.
  cases hunbound : firstUnbound? bound i.targets with
  | some l =>
    constructor
    · intro h
      cases h
    · rintro ⟨⟨⟩, -⟩
  | none =>
    have hthrow : ∀ e : FormatError, (throw e : Except FormatError Unit) ≠ .ok () := nofun
    have hpure : (pure () : Except FormatError Unit) = .ok () := rfl
    cases i with
    | var op slot => simp [hthrow, hpure, Formed]
    | lineNumber n l => simp [hthrow, hpure, Formed]
    | tableSwitch min max default labels => simp [hthrow, hpure, Formed]
    | lookupSwitch default keys labels =>
      -- The order of the keys only matters if there are as many labels.
      by_cases hlength : keys.length = labels.length
      · simp [hthrow, hpure, Formed, hlength, ← ascending_iff]
      · simp only [Formed, hlength, false_and, and_false, iff_false]
        simp only [ne_eq, hlength, not_false_eq_true, if_true]
        nofun
    | int op operand =>
      by_cases hop : op = .newarray
      · subst hop
        cases hkind : ArrayKind.ofCode? operand.toInt <;> simp [hthrow, hpure, Formed, hkind]
      · simp [hpure, Formed, hop]
    | _ => simp [hpure, Formed]

/-- An entry of the exception table passes the check iff its labels are bound. -/
theorem Guard.check_eq_ok_iff {bound : List Label} {method : String} {g : Guard} :
    g.check bound method = .ok () ↔ ∀ l ∈ g.labels, l ∈ bound := by
  rw [← firstUnbound?_eq_none_iff]
  unfold Guard.check
  cases firstUnbound? bound g.labels with
  | none => exact iff_of_true rfl rfl
  | some l =>
    constructor <;> intro h <;> cases h

/-- The check accepts exactly the code that can be stored. -/
theorem MethodCode.check_eq_ok_iff {method : String} {c : MethodCode} :
    c.check method = .ok () ↔ c.Accepted := by
  unfold MethodCode.check
  dsimp only
  -- Labels that are bound twice are looked for first. The two other tests go through the code
  -- instruction by instruction and guard by guard.
  cases hrepeat : firstRepeat? (c.insns.filterMap Insn.bound?) with
  | some l =>
    constructor
    · intro h
      cases h
    · intro h
      rw [firstRepeat?_eq_none_iff.2 h.once] at hrepeat
      cases hrepeat
  | none =>
    constructor
    · intro h
      obtain ⟨⟨⟩, hinsns, hguards⟩ := bind_eq_ok_iff.1 h
      have hinsn : ∀ i ∈ c.insns, _ := fun i hi =>
        Insn.check_eq_ok_iff.1 (forM_eq_ok_iff.1 hinsns i hi)
      have hguard : ∀ g ∈ c.guards, _ := fun g hg =>
        Guard.check_eq_ok_iff.1 (forM_eq_ok_iff.1 hguards g hg)
      simp only [mem_bound_iff] at hinsn hguard
      exact {
        once := firstRepeat?_eq_none_iff.1 hrepeat
        targets := fun i hi => (hinsn i hi).1
        guards := hguard
        lines := fun n l hi => (hinsn _ hi).2.1 n l rfl
        ends := fun op slot hi => (hinsn _ hi).2.2.1 op slot rfl
        formed := fun i hi => (hinsn i hi).2.2.2 }
    · intro h
      refine bind_eq_ok_iff.2 ⟨(), forM_eq_ok_iff.2 fun i hi => ?_,
        forM_eq_ok_iff.2 fun g hg => ?_⟩
      · simp only [Insn.check_eq_ok_iff, mem_bound_iff]
        refine ⟨h.targets i hi, ?_, ?_, h.formed i hi⟩
        · rintro n l rfl
          exact h.lines n l hi
        · rintro op slot rfl
          exact h.ends op slot hi
      · simp only [Guard.check_eq_ok_iff, mem_bound_iff]
        exact h.guards g hg

/-- Behind the last slot the end of a local variable starts over, and is within every frame. -/
example : (⟨[.var .iload 65535, .simple .ireturn], [], ⟨1, 0⟩⟩ : MethodCode).check "f()I" =
    .ok () := by
  decide

theorem mem_of_resolve {code : List Insn} {l : Label} {i : Nat} (h : resolve code l = .ok i) :
    .label l ∈ code := by
  obtain ⟨hi, hbound, -⟩ := List.findIdx?_eq_some_iff_getElem.1 (resolve_eq_ok_iff.1 h)
  rw [decide_eq_true_eq, Insn.bound?_eq_some_iff] at hbound
  exact hbound ▸ List.getElem_mem hi

theorem mem_of_handlerPlace {code : List Insn} {g : Guard} {i : Nat}
    (h : handlerPlace code g = .ok i) : ∀ l ∈ g.labels, .label l ∈ code := by
  obtain ⟨_, hstart, h⟩ := bind_eq_ok_iff.1 h
  obtain ⟨_, hstop, hhandler⟩ := bind_eq_ok_iff.1 h
  simp only [Guard.labels, List.forall_mem_cons]
  exact ⟨mem_of_resolve hstart, mem_of_resolve hstop, mem_of_resolve hhandler,
    List.forall_mem_nil _⟩

/-- The labels of the exception table and those of lines are bound in code that can be measured. -/
theorem label_mem_of_maxSizes {insns : List Insn} {guards : List Guard} {argSlots : Nat}
    {sizes : Sizes} (h : maxSizes insns guards argSlots = .ok sizes) :
    (∀ g ∈ guards, ∀ l ∈ g.labels, .label l ∈ insns) ∧
      ∀ n l, .lineNumber n l ∈ insns → .label l ∈ insns := by
  obtain ⟨-, -, handlers, walk, hhandlers, -, -, hlines⟩ := exists_steps_of_maxSizes h
  constructor
  · -- The handlers were found by their labels, so that these are bound.
    intro g hg
    obtain ⟨i, -, hi⟩ := exists_right_of_mem (mapM_eq_ok_iff.1 hhandlers) hg
    exact mem_of_handlerPlace hi
  · intro n l hl
    obtain ⟨i, hi, -⟩ := map_eq_ok_iff.1 (forM_eq_ok_iff.1 hlines _ hl)
    exact mem_of_resolve hi

/-- Code that can be measured is well-formed if this holds of what control does not come to as well:
every instruction has operands that fit each other, and jumps to labels that are bound. The ends of
local variables have to fit into words. -/
theorem wellFormed_of_maxSizes {insns : List Insn} {guards : List Guard} {argSlots : Nat}
    {sizes : Sizes} (h : maxSizes insns guards argSlots = .ok sizes)
    (htargets : ∀ i ∈ insns, ∀ l ∈ i.targets, .label l ∈ insns)
    (hformed : ∀ i ∈ insns, i.Formed) (hfits : ∀ n ∈ variableEnds insns, n < UInt16.size) :
    (⟨insns, guards, sizes⟩ : MethodCode).WellFormed := by
  obtain ⟨hrepeat, -⟩ := exists_steps_of_maxSizes h
  obtain ⟨hguards, hlines⟩ := label_mem_of_maxSizes h
  refine ⟨⟨firstRepeat?_eq_none_iff.1 hrepeat, htargets, hguards, hlines, hformed⟩, ?_⟩
  -- The frame has room for the greatest end of a local variable, reachable or not.
  intro op slot hvar
  obtain ⟨hgreatest, hwidths⟩ := locals_of_maxSizes h
  obtain ⟨w, hw⟩ := hwidths op slot hvar
  rw [slotEnds_eq hfits] at hgreatest
  rw [hw, Option.getD_some]
  exact hgreatest.2 (.inr ⟨op, slot, w, hvar, hw, rfl⟩)

/-- A method passes the check iff its code does. -/
theorem MethodImage.check_eq_ok_iff {m : MethodImage} :
    m.check = .ok () ↔ ∀ code ∈ m.code, code.Accepted := by
  unfold MethodImage.check
  cases m.code with
  | none => simp
  | some code => simp [MethodCode.check_eq_ok_iff]

/-- What the methods of a class are told by: the name and the descriptor. -/
def MethodImage.signature (m : MethodImage) : String × String :=
  (m.header.name, m.header.desc)

theorem checkMethods_cons {seen : List (String × String)} {m : MethodImage}
    {ms : List MethodImage} : checkMethods seen (m :: ms) =
      if m.signature ∈ seen then .error (.duplicateMethod m.header.title)
      else m.check >>= fun _ => checkMethods (m.signature :: seen) ms := by
  rw [checkMethods]
  rfl

/-- Methods pass the check iff they differ from each other and from those before them, and each of
them passes. -/
theorem checkMethods_eq_ok_iff {seen : List (String × String)} {ms : List MethodImage} :
    checkMethods seen ms = .ok () ↔ (ms.map MethodImage.signature).Nodup ∧
      (∀ m ∈ ms, m.signature ∉ seen) ∧ ∀ m ∈ ms, m.check = .ok () := by
  induction ms generalizing seen with
  | nil => simp [checkMethods]
  | cons m ms ih =>
    rw [checkMethods_cons]
    -- A method is compared with those in front of it, and those behind it with it.
    by_cases hseen : m.signature ∈ seen
    · simp [hseen]
    · rw [if_neg hseen, bind_eq_ok_iff, List.map_cons, List.nodup_cons, List.forall_mem_cons,
        List.forall_mem_cons]
      simp only [ih, List.mem_cons, not_or, List.mem_map, not_exists, not_and]
      constructor
      · rintro ⟨⟨⟩, hm, hnodup, hdiffer, hms⟩
        exact ⟨⟨fun x hx heq => (hdiffer x hx).1 heq, hnodup⟩,
          ⟨hseen, fun x hx => (hdiffer x hx).2⟩, hm, hms⟩
      · rintro ⟨⟨hdiffer, hnodup⟩, ⟨-, hfresh⟩, hm, hms⟩
        exact ⟨(), hm, hnodup, fun x hx => ⟨hdiffer x hx, hfresh x hx⟩, hms⟩

/-- A class that can be told by its name, as can its methods by theirs and their descriptors. -/
structure ClassImage.Distinct (c : ClassImage) : Prop where
  /-- The class has a name. -/
  named : c.header.name ≠ ""
  /-- No two methods have the same name and descriptor. -/
  nodup : (c.methods.map MethodImage.signature).Nodup

/-- The check accepts exactly the classes that can be told by their names, as can their methods,
and whose code can be stored. -/
theorem ClassImage.check_eq_ok_iff {c : ClassImage} :
    c.check = .ok () ↔ c.Distinct ∧ ∀ m ∈ c.methods, ∀ code ∈ m.code, code.Accepted := by
  have hcheck : c.check = if c.header.name = "" then .error .unnamed
      else checkMethods [] c.methods := rfl
  by_cases hname : c.header.name = ""
  · rw [hcheck, if_pos hname]
    exact iff_of_false nofun fun h => h.1.named hname
  · rw [hcheck, if_neg hname, checkMethods_eq_ok_iff]
    simp only [MethodImage.check_eq_ok_iff, List.not_mem_nil, not_false_eq_true, implies_true,
      true_and]
    exact and_congr_left fun _ => ⟨fun hnodup => ⟨hname, hnodup⟩, fun h => h.nodup⟩

end BytecodeLowering.Machine
