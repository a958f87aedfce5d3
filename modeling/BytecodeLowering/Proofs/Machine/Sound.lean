import BytecodeLowering.Proofs.Machine.Paths
import BytecodeLowering.Proofs.Machine.Plain

/-!
# Sound depths

Instruction lists whose operand stack has one depth in front of each instruction, told by the depths
at which the labels are entered.

* `Sound`: a list is annotated with depths that every instruction keeps.
* `Sound.no_fault`: no path of such a list comes upon a fault.
* `depthAfter`, `Turns`: the depth behind a list that is run through from its start, and the effect
  of such a list on any stack.
* `Sound.append_plain`, `Sound.cons_jump`, `Sound.cons_label`: what can stand in front of a list
  with sound depths.
-/

namespace BytecodeLowering.Machine

/-- The depths in front of the instructions of a list that is entered with the given depth from in
front of it, if it is, and with the depths `D` at its labels. An instruction without a depth is not
reached. -/
inductive Sound (D : Label → Option Nat) : Option Nat → List Insn → List (Option Nat) → Prop
  /-- Control does not come behind the last instruction. -/
  | nil : Sound D none [] []
  /-- Control comes to an instruction and goes on with the depth behind it. -/
  | live {i : Insn} {rest : List Insn} {ds : List (Option Nat)} {d pops pushes : Nat} :
      effect i = .ok (pops, pushes) → pops ≤ d → (∀ l, i.bound? = some l → D l = some d) →
      (∀ l ∈ i.targets, D l = some (d - pops + pushes)) →
      Sound D (if i.endsFlow then none else some (d - pops + pushes)) rest ds →
      Sound D (some d) (i :: rest) (some d :: ds)
  /-- Control does not come to an instruction. -/
  | dead {i : Insn} {rest : List Insn} {ds : List (Option Nat)} :
      (∀ l, i.bound? = some l → D l = none) → Sound D none rest ds →
      Sound D none (i :: rest) (none :: ds)
  /-- Control comes to the list by its labels only. -/
  | enter {code : List Insn} {ds : List (Option Nat)} {d : Nat} :
      Sound D (some d) code ds → Sound D none code ds

namespace Sound

variable {D : Label → Option Nat} {code rest : List Insn} {ds : List (Option Nat)}
  {guards : List Guard} {e : Option Nat} {d i : Nat}

/-- The depth with which a list is entered is the one in front of its first instruction. -/
theorem head?_eq (h : Sound D (some d) code ds) : ds.head? = some (some d) := by
  cases h
  rfl

/-- There is a depth in front of each instruction. -/
theorem length_eq (h : Sound D e code ds) : ds.length = code.length := by
  induction h with
  | nil => rfl
  | live _ _ _ _ _ ih => simp [ih]
  | dead _ _ ih => simp [ih]
  | enter _ ih => exact ih

/-- A label is bound where the depth is that of the label. -/
theorem getElem?_of_bound? (h : Sound D e code ds) {insn : Insn} {l : Label}
    (hi : code[i]? = some insn) (hl : insn.bound? = some l) : ds[i]? = some (D l) := by
  induction h generalizing i with
  | nil => cases hi
  | live _ _ hbound _ _ ih =>
    -- At the head the depth is the one of the label, and behind it the rest is sound.
    cases i with
    | zero =>
      cases hi
      rw [hbound l hl]
      rfl
    | succ i => exact ih hi
  | dead hbound _ ih =>
    cases i with
    | zero =>
      cases hi
      rw [hbound l hl]
      rfl
    | succ i => exact ih hi
  | enter _ ih => exact ih hi

/-- An instruction with a depth can be carried out there. Its labels are entered with the depth
behind it, and so is the next instruction if control goes on. -/
theorem step_of_getElem? (h : Sound D e code ds) (hd : ds[i]? = some (some d)) :
    ∃ insn pops pushes, code[i]? = some insn ∧ effect insn = .ok (pops, pushes) ∧ pops ≤ d ∧
      (∀ l ∈ insn.targets, D l = some (d - pops + pushes)) ∧
      (insn.endsFlow = false → ds[i + 1]? = some (some (d - pops + pushes))) := by
  induction h generalizing i with
  | nil => cases hd
  | @live insn rest ds d' pops pushes heffect hpops _ htargets hrest ih =>
    cases i with
    | zero =>
      cases hd
      refine ⟨insn, pops, pushes, rfl, heffect, hpops, htargets, fun hflow => ?_⟩
      -- The rest starts with the depth behind the instruction.
      rw [if_neg (by simp [hflow])] at hrest
      rw [List.getElem?_cons_succ, ← List.head?_eq_getElem?, hrest.head?_eq]
    | succ i => exact ih hd
  | dead _ _ ih =>
    cases i with
    | zero => cases hd
    | succ i => exact ih hd
  | enter _ ih => exact ih hd

/-- The place of a label is where an instruction binds it. -/
theorem getElem?_of_place? (h : Sound D e code ds) {l : Label} (hl : place? code l = some i) :
    ds[i]? = some (D l) := by
  obtain ⟨hlt, hbound, -⟩ := List.findIdx?_eq_some_iff_getElem.1 hl
  exact h.getElem?_of_bound? (List.getElem?_eq_getElem hlt) (by simpa using hbound)

/-- Control gets to an instruction with its depth only, if each handler is entered with the
exception on the stack. -/
theorem getElem?_of_reaches (h : Sound D e code ds) (he : code ≠ [] → ds[0]? = some (some 0))
    (hguards : ∀ g ∈ guards, D g.handler = some 1) {s : Point} (hs : Reaches code guards s) :
    ds[s.1]? = some (some s.2) := by
  -- Control starts at depth zero or at a handler, and each step leads to the depth that is noted.
  induction hs with
  | entry hentry =>
    cases hentry with
    | first hne => exact he hne
    | handler hg hplace => rw [h.getElem?_of_place? hplace, hguards _ hg]
  | step _ hstep ih =>
    obtain ⟨insn, pops, pushes, hinsn, heffect, -, htargets, hnext⟩ := h.step_of_getElem? ih
    cases hstep with
    | jump hinsn' heffect' _ hl hplace =>
      cases hinsn.symm.trans hinsn'
      cases heffect.symm.trans heffect'
      rw [h.getElem?_of_place? hplace, htargets _ hl]
    | next hinsn' heffect' _ hflow =>
      cases hinsn.symm.trans hinsn'
      cases heffect.symm.trans heffect'
      exact hnext hflow

/-- A list with sound depths has no fault on a path, if the labels that are entered are bound. -/
theorem no_fault (h : Sound D e code ds) (he : code ≠ [] → ds[0]? = some (some 0))
    (hguards : ∀ g ∈ guards, D g.handler = some 1)
    (hbound : ∀ l, D l ≠ none → place? code l ≠ none) (err : CodeError) :
    ¬Fault code guards err := by
  intro hfault
  -- Wherever control comes to, there is an instruction that fits the depth.
  have hstep : ∀ {i d}, Reaches code guards (i, d) → _ := fun hr =>
    h.step_of_getElem? (h.getElem?_of_reaches he hguards hr)
  cases hfault with
  | underflow hr hinsn heffect hlt =>
    obtain ⟨_, _, _, hinsn', heffect', hpops, -⟩ := hstep hr
    cases hinsn.symm.trans hinsn'
    cases heffect.symm.trans heffect'
    omega
  | inconsistent hr hr' hne =>
    have hd := h.getElem?_of_reaches he hguards hr
    rw [h.getElem?_of_reaches he hguards hr'] at hd
    cases hd
    exact hne rfl
  | unbound hr hinsn hl hplace =>
    obtain ⟨_, _, _, hinsn', -, -, htargets, -⟩ := hstep hr
    cases hinsn.symm.trans hinsn'
    exact hbound _ (by simp [htargets _ hl]) hplace
  | fallOffEnd hr hinsn =>
    obtain ⟨_, _, _, hinsn', -⟩ := hstep hr
    rw [hinsn] at hinsn'
    cases hinsn'
  | noEffect hr hinsn heffect =>
    obtain ⟨_, _, _, hinsn', heffect', -⟩ := hstep hr
    cases hinsn.symm.trans hinsn'
    rw [heffect] at heffect'
    cases heffect'

end Sound

/-- The depth behind a list that is run through from its start with the given depth. -/
def depthAfter (d : Nat) : List Insn → Option Nat
  | [] => some d
  | i :: rest =>
    match effect i with
    | .ok (pops, pushes) => if pops ≤ d then depthAfter (d - pops + pushes) rest else none
    | .error _ => none

/-- A list in front of another is run through first. -/
theorem depthAfter_append {d : Nat} {code rest : List Insn} :
    depthAfter d (code ++ rest) = (depthAfter d code).bind fun d => depthAfter d rest := by
  induction code generalizing d with
  | nil => rfl
  | cons i code ih =>
    rw [List.cons_append, depthAfter, depthAfter]
    split
    · split
      · exact ih
      · rfl
    · rfl

/-- A list takes slots from the top of any stack and leaves others there. -/
def Turns (pops pushes : Nat) (code : List Insn) : Prop :=
  ∀ d, depthAfter (d + pops) code = some (d + pushes)

namespace Turns

variable {pops pushes slots : Nat} {code rest : List Insn}

/-- No instruction leaves the stack as it is. -/
theorem nil : Turns pops pops [] :=
  fun _ => rfl

/-- An instruction has its effect on any stack. -/
theorem insn {i : Insn} (h : effect i = .ok (pops, pushes)) : Turns pops pushes [i] := by
  intro d
  simp only [depthAfter, h, if_pos (Nat.le_add_left pops d)]
  rw [Nat.add_sub_cancel]

/-- What lies deeper on the stack stays there. -/
theorem below (n : Nat) (h : Turns pops pushes code) : Turns (n + pops) (n + pushes) code := by
  intro d
  rw [← Nat.add_assoc, h, Nat.add_assoc]

/-- A list takes what the one in front of it leaves. -/
theorem append (h : Turns pops slots code) (h' : Turns slots pushes rest) :
    Turns pops pushes (code ++ rest) := by
  intro d
  rw [depthAfter_append, h, Option.bind_some, h']

/-- A list takes what the instruction in front of it leaves. -/
theorem cons {i : Insn} (hi : effect i = .ok (pops, slots)) (h : Turns slots pushes rest) :
    Turns pops pushes (i :: rest) :=
  (insn hi).append h

/-- An instruction takes what the list in front of it leaves. -/
theorem snoc {i : Insn} (h : Turns pops slots code) (hi : effect i = .ok (slots, pushes)) :
    Turns pops pushes (code ++ [i]) :=
  h.append (insn hi)

end Turns

namespace Sound

variable {D : Label → Option Nat} {code rest : List Insn} {ds : List (Option Nat)} {d d' : Nat}

/-- Straight code in front of a list with sound depths. -/
theorem append_plain (hplain : ∀ i ∈ code, i.isPlain) (hd : depthAfter d code = some d')
    (h : Sound D (some d') rest ds) : ∃ ds', Sound D (some d) (code ++ rest) ds' := by
  induction code generalizing d with
  | nil =>
    cases hd
    exact ⟨ds, h⟩
  | cons i code ih =>
    have hi : i.isPlain := hplain i List.mem_cons_self
    -- The depth behind the instruction is the one that the rest of the code starts with.
    unfold depthAfter at hd
    split at hd
    · rename_i pops pushes heffect
      split at hd
      · rename_i hpops
        obtain ⟨ds', hds'⟩ := ih (fun i hi => hplain i (List.mem_cons_of_mem _ hi)) hd
        refine ⟨some d :: ds', .live heffect hpops ?_ ?_ ?_⟩
        · simp [Insn.bound?_of_isPlain hi]
        · simp [Insn.targets_of_isPlain hi]
        · rw [if_neg (by simp [Insn.endsFlow_of_isPlain hi])]
          exact hds'
      · cases hd
    · cases hd

/-- A jump whose targets are entered with the depth behind it, in front of a list that is entered
with this depth too if control goes on. -/
theorem cons_jump {i : Insn} (hbound : i.bound? = none) (hd : depthAfter d [i] = some d')
    (htargets : ∀ l ∈ i.targets, D l = some d')
    (h : Sound D (if i.endsFlow then none else some d') rest ds) :
    Sound D (some d) (i :: rest) (some d :: ds) := by
  unfold depthAfter at hd
  split at hd
  · rename_i pops pushes heffect
    split at hd
    · rename_i hpops
      cases hd
      exact .live heffect hpops (by simp [hbound]) htargets h
    · cases hd
  · cases hd

/-- A label that is entered with the depth in front of it. -/
theorem cons_label {l : Label} (hl : D l = some d) (h : Sound D (some d) rest ds) :
    Sound D (some d) (.label l :: rest) (some d :: ds) := by
  refine .live rfl (Nat.zero_le d) ?_ (by simp [Insn.targets])
    (by simpa [Insn.endsFlow, Insn.opcode?] using h)
  intro l' hl'
  cases hl'
  exact hl

/-- A line number has no effect. -/
theorem cons_lineNumber {n : Nat} {l : Label} (h : Sound D (some d) rest ds) :
    Sound D (some d) (.lineNumber n l :: rest) (some d :: ds) :=
  .live rfl (Nat.zero_le d) nofun (by simp [Insn.targets])
    (by simpa [Insn.endsFlow, Insn.opcode?] using h)

end Sound

end BytecodeLowering.Machine
