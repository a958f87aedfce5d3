import BytecodeLowering.Proofs.Machine.Check
import BytecodeLowering.Proofs.Machine.Paths

/-!
# Rejected code

What the errors of a measurement say about the code, and which code has none of them.

* `Named`: the labels that have to be bound.
* `Exhibits`: the code has the defect that an error reports.
* `Flawless`: code without defects.
* `exhibits_of_maxSizes`: every error reports a defect of the code.
* `flawless_of_maxSizes`: code that can be measured has no defects.
* `maxSizes_rejects`: code is rejected for the defects that it has, and for nothing else.
-/

namespace BytecodeLowering.Machine

/-- A label that has to be bound: one of an entry of the exception table, of an instruction that
control gets to, or of a line number. -/
inductive Named (code : List Insn) (guards : List Guard) : Label → Prop
  | guard {g : Guard} {l : Label} : g ∈ guards → l ∈ g.labels → Named code guards l
  | target {i d : Nat} {insn : Insn} {l : Label} :
      Reaches code guards (i, d) → code[i]? = some insn → l ∈ insn.targets → Named code guards l
  | line {n : Nat} {l : Label} : .lineNumber n l ∈ code → Named code guards l

/-- The code has the defect that an error reports. -/
def Exhibits (code : List Insn) (guards : List Guard) : CodeError → Prop
  | .descriptor e =>
    ∃ i d insn, Reaches code guards (i, d) ∧ code[i]? = some insn ∧
      effect insn = .error (.descriptor e)
  | .invalidInsn e =>
    (∃ i d insn, Reaches code guards (i, d) ∧ code[i]? = some insn ∧
      effect insn = .error (.invalidInsn e)) ∨
    ∃ op slot, .var op slot ∈ code ∧ op.varWidth? = none ∧ e = .notVariable op
  | .underflow i text d needed =>
    Reaches code guards (i, d) ∧ d < needed ∧ ∃ insn pushes, code[i]? = some insn ∧
      insn.render = text ∧ effect insn = .ok (needed, pushes)
  | .inconsistent i expected found =>
    Reaches code guards (i, expected) ∧ Reaches code guards (i, found) ∧ expected ≠ found
  | .unbound l => .label l ∉ code ∧ Named code guards l
  | .duplicate l => 2 ≤ code.count (.label l)
  | .fallOffEnd => ∃ d, Reaches code guards (code.length, d)

/-- Code without defects. -/
structure Flawless (code : List Insn) (guards : List Guard) : Prop where
  /-- Where control gets to, the operand stack is deep enough for the instruction. -/
  deep : ∀ i d insn pops pushes, Reaches code guards (i, d) → code[i]? = some insn →
    effect insn = .ok (pops, pushes) → pops ≤ d
  /-- All paths to a place agree on the depth there. -/
  agree : ∀ i d d', Reaches code guards (i, d) → Reaches code guards (i, d') → d = d'
  /-- Control does not get to the end of the list. -/
  inside : ∀ d, ¬Reaches code guards (code.length, d)
  /-- Labels are bound where they have to be. -/
  bound : ∀ l, Named code guards l → .label l ∈ code
  /-- No label is bound twice. -/
  once : ∀ l, code.count (.label l) ≤ 1
  /-- Instructions that control gets to have an effect. -/
  effects : ∀ i d insn, Reaches code guards (i, d) → code[i]? = some insn →
    ∃ pops pushes, effect insn = .ok (pops, pushes)
  /-- Instructions on variables load or store them. -/
  accesses : ∀ op slot, .var op slot ∈ code → ∃ w, op.varWidth? = some w

variable {code : List Insn} {guards : List Guard} {argSlots : Nat}

/-- A label has no place iff no instruction binds it. -/
theorem place?_eq_none_iff {l : Label} : place? code l = none ↔ .label l ∉ code := by
  rw [place?, List.findIdx?_eq_none_iff]
  simp only [decide_eq_false_iff_not, Insn.bound?_eq_some_iff]
  exact ⟨fun h hl => h _ hl rfl, fun h insn hi heq => h (heq ▸ hi)⟩

/-- A label stands in the list where it has a place. -/
theorem lt_of_place? {l : Label} {i : Nat} (h : place? code l = some i) : i < code.length := by
  obtain ⟨hlt, -, -⟩ := List.findIdx?_eq_some_iff_getElem.1 h
  exact hlt

/-- A label stands among the bound ones as often as there are instructions that bind it. -/
theorem count_bound {l : Label} :
    (code.filterMap Insn.bound?).count l = code.count (.label l) := by
  rw [List.count_filterMap, List.count_eq_countP]
  refine List.countP_congr fun insn _ => ?_
  rw [beq_iff_eq, beq_iff_eq, Insn.bound?_eq_some_iff]

/-- Control gets no farther than to the end of the list. -/
theorem le_length_of_reaches {s : Point} (h : Reaches code guards s) : s.1 ≤ code.length := by
  cases h with
  | entry hs =>
    cases hs with
    | first => exact Nat.zero_le _
    | handler _ hplace => exact (lt_of_place? hplace).le
  | step _ hstep =>
    cases hstep with
    | jump _ _ _ _ hplace => exact (lt_of_place? hplace).le
    | next hinsn => exact (List.getElem?_eq_some_iff.1 hinsn).1

/-- The effect of an instruction fails on its descriptor, or on an operation that does not fit. -/
theorem effect_eq_error {insn : Insn} {e : CodeError} (h : effect insn = .error e) :
    (∃ e', e = .descriptor e') ∨ ∃ e', e = .invalidInsn e' := by
  have hfixed : ∀ op, effect.fixed op = .error e → ∃ e', e = .invalidInsn e' := by
    intro op hop
    unfold effect.fixed at hop
    split at hop
    · cases hop
    · cases hop
      exact ⟨_, rfl⟩
  -- An instruction without a descriptor has the effect that its operation has on its own.
  cases insn with
  | label | lineNumber | ldc | multiNewArray => cases h
  | simple op | int op | var op | type op | jump op => exact .inr (hfixed op h)
  | tableSwitch => exact .inr (hfixed .tableswitch h)
  | lookupSwitch => exact .inr (hfixed .lookupswitch h)
  | invokeDynamic =>
    obtain ⟨e', -, rfl⟩ := mapError_eq_error_iff.1 h
    exact .inl ⟨e', rfl⟩
  | field op owner name desc =>
    rcases bind_eq_error_iff.1 h with h | ⟨w, -, h⟩
    · obtain ⟨e', -, rfl⟩ := mapError_eq_error_iff.1 h
      exact .inl ⟨e', rfl⟩
    · split at h <;> cases h
      exact .inr ⟨_, rfl⟩
  | method op owner name desc isInterface =>
    rcases bind_eq_error_iff.1 h with h | ⟨w, -, h⟩
    · obtain ⟨e', -, rfl⟩ := mapError_eq_error_iff.1 h
      exact .inl ⟨e', rfl⟩
    · dsimp only at h
      split at h <;> cases h
      exact .inr ⟨_, rfl⟩

/-- A fault on a path is a defect of the code. -/
theorem exhibits_of_fault {e : CodeError} (h : Fault code guards e) : Exhibits code guards e := by
  cases h with
  | underflow hreach hinsn heff hd => exact ⟨hreach, hd, _, _, hinsn, rfl, heff⟩
  | inconsistent hreach hreach' hne => exact ⟨hreach, hreach', hne⟩
  | unbound hreach hinsn hl hplace =>
    exact ⟨place?_eq_none_iff.1 hplace, .target hreach hinsn hl⟩
  | @fallOffEnd i d hreach hnone =>
    -- Control steps from instruction to instruction, so that it is right behind the last one.
    have hle := le_length_of_reaches hreach
    have hge := List.getElem?_eq_none_iff.1 hnone
    obtain rfl : i = code.length := hle.antisymm hge
    exact ⟨d, hreach⟩
  | noEffect hreach hinsn heff =>
    rcases effect_eq_error heff with ⟨e', rfl⟩ | ⟨e', rfl⟩
    · exact ⟨_, _, _, hreach, hinsn, heff⟩
    · exact Or.inl ⟨_, _, _, hreach, hinsn, heff⟩

/-- Every error of a measurement reports a defect of the code. -/
theorem exhibits_of_maxSizes {e : CodeError} (h : maxSizes code guards argSlots = .error e) :
    Exhibits code guards e := by
  rcases maxSizes_eq_error h with ⟨l, hl, rfl⟩ | ⟨op, slot, hvar, hwidth, rfl⟩ |
    ⟨g, hg, l, hl, hplace, rfl⟩ | ⟨n, l, hline, hplace, rfl⟩ | hfault
  · have hcount := two_le_count_of_firstRepeat? hl
    rw [count_bound] at hcount
    exact hcount
  · exact Or.inr ⟨op, slot, hvar, hwidth, rfl⟩
  · exact ⟨place?_eq_none_iff.1 hplace, .guard hg hl⟩
  · exact ⟨place?_eq_none_iff.1 hplace, .line hline⟩
  · exact exhibits_of_fault hfault

/-- Code without defects exhibits no error. -/
theorem Flawless.not_exhibits (h : Flawless code guards) (e : CodeError) :
    ¬Exhibits code guards e := by
  intro he
  -- Each error contradicts the field that excludes it.
  cases e with
  | descriptor e =>
    obtain ⟨i, d, insn, hreach, hinsn, heff⟩ := he
    obtain ⟨pops, pushes, hok⟩ := h.effects i d insn hreach hinsn
    cases heff.symm.trans hok
  | invalidInsn e =>
    rcases he with ⟨i, d, insn, hreach, hinsn, heff⟩ | ⟨op, slot, hvar, hnone, -⟩
    · obtain ⟨pops, pushes, hok⟩ := h.effects i d insn hreach hinsn
      cases heff.symm.trans hok
    · obtain ⟨w, hw⟩ := h.accesses op slot hvar
      cases hnone.symm.trans hw
  | underflow i text d needed =>
    obtain ⟨hreach, hlt, insn, pushes, hinsn, -, heff⟩ := he
    exact absurd (h.deep i d insn needed pushes hreach hinsn heff) (not_le.2 hlt)
  | inconsistent i expected found =>
    obtain ⟨hreach, hreach', hne⟩ := he
    exact hne (h.agree i expected found hreach hreach')
  | unbound l => exact he.1 (h.bound l he.2)
  | duplicate l => exact absurd (h.once l) (not_le.2 he)
  | fallOffEnd =>
    obtain ⟨d, hreach⟩ := he
    exact h.inside d hreach

namespace Walk

/-- The instructions that a walk has met jump to labels that are bound. -/
def Bound (code : List Insn) (w : Walk) : Prop :=
  ∀ i d, (i, d) ∈ w.met → ∀ insn, code[i]? = some insn → ∀ l ∈ insn.targets, .label l ∈ code

/-- A visit looks up the labels that the instruction jumps to. -/
theorem Bound.visit {w w' : Walk} {i d : Nat} (hw : w.Bound code)
    (h : visit code w i d = .ok w') : w'.Bound code := by
  rcases visit_ok h with ⟨-, rfl⟩ | ⟨-, insn, pops, pushes, targets, hinsn, -, -, htargets, rfl⟩
  · exact hw
  · intro j k hmem insn' hinsn' l hl
    rcases List.mem_cons.1 hmem with heq | hmem
    · cases heq
      cases hinsn.symm.trans hinsn'
      obtain ⟨t, -, hplace⟩ := exists_right_of_mem htargets hl
      exact mem_of_resolve (resolve_eq_ok_iff.2 hplace)
    · exact hw j k hmem insn' hinsn' l hl

/-- So does a walk to its end. -/
theorem Bound.finish {w w' : Walk} (hw : w.Bound code) (h : finish code w = .ok w') :
    w'.Bound code := by
  fun_induction Walk.finish code w with
  | case1 => cases h
  | case2 w i d hhere w₁ hvisit ih => exact ih (hw.visit hvisit) h
  | case3 =>
    cases h
    exact hw
  | case4 w hhere p rest hpending ih => exact ih hw h

end Walk

/-- In code that can be measured, instructions that control gets to jump to labels that are
bound. -/
theorem target_mem_of_maxSizes {m : Sizes} (h : maxSizes code guards argSlots = .ok m) {i d : Nat}
    {insn : Insn} (hreach : Reaches code guards (i, d)) (hinsn : code[i]? = some insn) :
    ∀ l ∈ insn.targets, .label l ∈ code := by
  obtain ⟨handlers, w, hfinish, hw, hpending, hhere, -⟩ := exists_walk_of_maxSizes h
  -- A walk that came to its end has met all points that control gets to.
  have hbound : w.Bound code := by
    refine Walk.Bound.finish (fun _ _ hmem => ?_) hfinish
    cases hmem
  exact hbound i d ((Walk.mem_met_iff hw hpending hhere).2 hreach) insn hinsn

/-- Code that can be measured has no defects. -/
theorem flawless_of_maxSizes {m : Sizes} (h : maxSizes code guards argSlots = .ok m) :
    Flawless code guards := by
  have happlies := applies_of_maxSizes h
  obtain ⟨hguards, hlines⟩ := label_mem_of_maxSizes h
  obtain ⟨hrepeat, -⟩ := exists_steps_of_maxSizes h
  -- Wherever control comes to, there is an instruction that can be carried out.
  have heffect : ∀ i d insn, Reaches code guards (i, d) → code[i]? = some insn →
      ∃ pops pushes, effect insn = .ok (pops, pushes) ∧ pops ≤ d := by
    intro i d insn hreach hinsn
    obtain ⟨insn', pops, pushes, hinsn', heff, hle⟩ := happlies _ hreach
    cases hinsn.symm.trans hinsn'
    exact ⟨pops, pushes, heff, hle⟩
  refine ⟨?deep, depth_unique_of_maxSizes h, ?inside, ?bound, ?once, ?effects,
    (locals_of_maxSizes h).2⟩
  case deep =>
    intro i d insn pops pushes hreach hinsn heff
    obtain ⟨_, _, heff', hle⟩ := heffect i d insn hreach hinsn
    cases heff.symm.trans heff'
    exact hle
  case inside =>
    intro d hreach
    obtain ⟨insn, _, _, hinsn, -⟩ := happlies _ hreach
    simp at hinsn
  case bound =>
    intro l hl
    cases hl with
    | guard hg hl => exact hguards _ hg l hl
    | target hreach hinsn hl => exact target_mem_of_maxSizes h hreach hinsn l hl
    | line hline => exact hlines _ l hline
  case once =>
    intro l
    rw [← count_bound]
    exact List.nodup_iff_count_le_one.1 (firstRepeat?_eq_none_iff.1 hrepeat) l
  case effects =>
    intro i d insn hreach hinsn
    obtain ⟨pops, pushes, heff, -⟩ := heffect i d insn hreach hinsn
    exact ⟨pops, pushes, heff⟩

/-- Code is rejected for the defects that it has, and for nothing else: every error that a
measurement ends in reports a defect of the code, and code without defects can be measured. -/
theorem maxSizes_rejects (code : List Insn) (guards : List Guard) (argSlots : Nat) :
    (∀ e, maxSizes code guards argSlots = .error e → Exhibits code guards e) ∧
      ((∃ m, maxSizes code guards argSlots = .ok m) ↔ Flawless code guards) := by
  refine ⟨fun e => exhibits_of_maxSizes, fun ⟨m, hm⟩ => flawless_of_maxSizes hm, fun h => ?_⟩
  cases hm : maxSizes code guards argSlots with
  | ok m => exact ⟨m, rfl⟩
  | error e => exact absurd (exhibits_of_maxSizes hm) (h.not_exhibits e)

/-- A branch around a push: its two ways meet with stacks of different depth. -/
def lopsided : List Insn :=
  [.var .iload 0, .jump .ifeq ⟨0⟩, .simple .iconst1, .label ⟨0⟩, .simple .return]

/-- `maxSizes_rejects` at code that is rejected and at code that is not. -/
theorem lopsided_rejected :
    (maxSizes lopsided [] 1 = .error (.inconsistent 3 1 0) ∧ Reaches lopsided [] (3, 1) ∧
        Reaches lopsided [] (3, 0)) ∧
      Flawless countdown [countdownGuard] := by
  have hbad : maxSizes lopsided [] 1 = .error (.inconsistent 3 1 0) := by cbv
  have hgood : maxSizes countdown [countdownGuard] 1 = .ok ⟨2, 1⟩ := by cbv
  obtain ⟨hreach, hreach', -⟩ := (maxSizes_rejects lopsided [] 1).1 _ hbad
  exact ⟨⟨hbad, hreach, hreach'⟩, (maxSizes_rejects countdown [countdownGuard] 1).2.1 ⟨_, hgood⟩⟩

end BytecodeLowering.Machine
