import Chip8.Proofs.Execution

/-!
# Steps told directly

A step aims a branch one instruction short of its target, adds one instruction to a skip, and then
moves on behind whatever it performed. Here a step is told without that detour: the next program
counter is read off the digits of the word, in whole numbers, and taken modulo `2 ^ 16`.

* `Direct.nextPc`: where each of the sixteen families of words goes.
* `Direct.step`, `Direct.outcomes`: a step, and a run of operations whose steps are direct ones.
* `step_eq_direct`: steps and runs of every machine agree with the direct ones.
-/

namespace Chip8

namespace Direct

/-! ## The direct step -/

/-- The byte of memory that a whole number names, counting round the end. -/
def byteAt (s : State) (a : ℕ) : ℕ :=
  (s.memory.cells.get ⟨a % 0x1000, Nat.mod_lt a (by decide)⟩).toNat

/-- The word at the program counter. -/
def word (s : State) : Word :=
  UInt16.ofNat (256 * byteAt s s.pc.toNat + byteAt s (s.pc.toNat + 1))

/-- Whether the word is a skip whose condition holds. -/
def skips (s : State) (held : HeldKeys) (w : Word) : Bool :=
  match Word.family w with
  | 0x3 => s.v.get (Word.x w) == Word.kk w
  | 0x4 => s.v.get (Word.x w) != Word.kk w
  | 0x5 => s.v.get (Word.x w) == s.v.get (Word.y w)
  | 0x9 => s.v.get (Word.x w) != s.v.get (Word.y w)
  | 0xE =>
    if Word.kk w = 0x9E then held.isDown (s.v.get (Word.x w))
    else if Word.kk w = 0xA1 then !held.isDown (s.v.get (Word.x w))
    else false
  | _ => false

/-- The most recent return address. -/
def lastReturn (c : CallStack) : UInt16 := c.slots[c.depth - 1]?.getD 0

/-- Where the program goes on behind `w`, before reduction modulo `2 ^ 16`. -/
def nextPc (s : State) (held : HeldKeys) (w : Word) : ℕ :=
  match Word.family w with
  | 0x0 => if w = 0x00EE then (lastReturn s.calls).toNat + 2 else s.pc.toNat + 2
  | 0x1 | 0x2 => w.toNat % 0x1000
  | 0xB => w.toNat % 0x1000 + (s.v.get offsetRegister).toNat
  | _ => if skips s held w then s.pc.toNat + 4 else s.pc.toNat + 2

/-- The return addresses behind `w`: a call adds the address of the call itself. -/
def nextCalls (s : State) (w : Word) : CallStack :=
  if w = 0x00EE then { s.calls with depth := s.calls.depth - 1 }
  else if Word.family w = 0x2 then
    ⟨s.calls.slots.setIfInBounds s.calls.depth s.pc, s.calls.depth + 1⟩
  else s.calls

/-- A step that sets the program counter once. Waiting and failing leave the machine alone. -/
def step (m : Machine) (held : HeldKeys) : Except Fault Unit × Machine :=
  if m.state.awaiting.isSome then (.ok (), m)
  else
    let w := word m.state
    match Instruction.ofWord? w with
    | none => (.error (.unknownInstruction w), m)
    | some instruction =>
      if w = 0x00EE ∧ m.state.calls.depth = 0 then (.error .stackUnderflow, m)
      else if Word.family w = 0x2 ∧ 32 ≤ m.state.calls.depth then (.error (.stackOverflow 32), m)
      else
        (.ok (), { m with
          state := { m.state.effect m.source.peek instruction with
            pc := UInt16.ofNat (nextPc m.state held w)
            calls := nextCalls m.state w }
          source := if Word.family w = 0xC then m.source.advance else m.source })

/-- An operation, a step being a direct one. -/
def operate (m : Machine) (held : HeldKeys) : Machine.Op → Except Fault Machine.Gain × Machine
  | .step => ((step m held).1.map fun _ => .nothing, (step m held).2)
  | op => ((m.operate held op).result, (m.operate held op).machine)

/-- The results and machines of a list of operations one after the other. -/
def outcomes (m : Machine) :
    List (HeldKeys × Machine.Op) → List (Except Fault Machine.Gain × Machine)
  | [] => []
  | (held, op) :: rest => operate m held op :: outcomes (operate m held op).2 rest

/-! ## Fetching -/

theorem byteAt_toNat (s : State) (a : UInt16) : byteAt s a.toNat = (s.memory.peek a).toNat := rfl

theorem byteAt_add_one (s : State) (a : UInt16) :
    byteAt s (a.toNat + 1) = (s.memory.peek (a + 1)).toNat := by
  have same : (a.toNat + 1) % 0x1000 = (a + 1).toNat % 0x1000 := by
    rw [UInt16.toNat_add, UInt16.toNat_one, Nat.mod_mod_of_dvd _ (by decide)]
  unfold byteAt Memory.peek Memory.cell
  congr 2
  exact Fin.ext same

theorem word_eq_fetch (s : State) : word s = s.fetch := by
  unfold word State.fetch Memory.word
  rw [byteAt_toNat, byteAt_add_one]

/-! ## Landing -/

theorem ofNat_toNat_add (a : UInt16) (k : ℕ) :
    UInt16.ofNat (a.toNat + k) = a + UInt16.ofNat k := by
  rw [UInt16.ofNat_add, UInt16.ofNat_toNat]

theorem ofNat_addr (w : Word) : UInt16.ofNat (w.toNat % 0x1000) = Word.addr w := rfl

theorem toNat_eq_iff {b : UInt8} {k : ℕ} (hk : k < 256) : b.toNat = k ↔ b = UInt8.ofNat k := by
  rw [← UInt8.toNat_inj, UInt8.toNat_ofNat_of_lt' hk]

/-- Of the families with a condition, the word knows which condition it is. -/
theorem skips_eq {s : State} {held : HeldKeys} {w : Word} {test : Test Register}
    (h : Instruction.ofWord? w = some (.skip test)) : skips s held w = test.holds s held := by
  have hf := Instruction.family_of_ofWord? h
  cases test with
  | keyDown x =>
    simp only [Instruction.family, Instruction.testFamily] at hf
    simp only [Instruction.ofWord?, Instruction.ofDigits?, hf, Instruction.ofKeyTest?] at h
    split at h <;> cases h
    next hk => simp [skips, hf, Test.holds, (toNat_eq_iff (by decide)).mp hk]
  | keyUp x =>
    simp only [Instruction.family, Instruction.testFamily] at hf
    simp only [Instruction.ofWord?, Instruction.ofDigits?, hf, Instruction.ofKeyTest?] at h
    split at h <;> cases h
    next hk => simp [skips, hf, Test.holds, (toNat_eq_iff (by decide)).mp hk]
  | _ =>
    simp only [Instruction.family, Instruction.testFamily] at hf
    simp only [Instruction.ofWord?, Instruction.ofDigits?, hf] at h
    first
      | cases h; simp [skips, hf, Test.holds]
      | split at h <;> cases h; simp [skips, hf, Test.holds]

/-- The whole number that the digits give is where the instruction lands. -/
theorem ofNat_nextPc {s : State} {held : HeldKeys} {w : Word} {instruction : Instruction Register}
    (h : Instruction.ofWord? w = some instruction) :
    UInt16.ofNat (nextPc s held w) = s.landing held instruction := by
  have hf := Instruction.family_of_ofWord? h
  have not_ret : instruction ≠ .ret → w ≠ 0x00EE := by
    rintro hne rfl
    exact hne (Option.some.inj (h.symm.trans (Instruction.ofWord?_eq_ret_iff.mpr rfl)))
  cases instruction with
  | ret =>
    have hw := Instruction.ofWord?_eq_ret_iff.mp h
    simp only [Instruction.family] at hf
    simp only [nextPc, hw, ↓reduceIte]
    exact ofNat_toNat_add _ _
  | clear | system addr =>
    simp only [Instruction.family] at hf
    simp only [nextPc, hf, not_ret (by simp), ↓reduceIte, ofNat_toNat_add]
    rfl
  | jump addr | call addr =>
    simp only [Instruction.family] at hf
    simp only [Instruction.ofWord?, Instruction.ofDigits?, hf, Option.some.injEq,
      Instruction.jump.injEq, Instruction.call.injEq] at h
    simp only [nextPc, hf, ofNat_addr, h, State.landing]
  | jumpOffset addr =>
    simp only [Instruction.family] at hf
    simp only [Instruction.ofWord?, Instruction.ofDigits?, hf, Option.some.injEq,
      Instruction.jumpOffset.injEq] at h
    have hv : UInt16.ofNat (s.v.get offsetRegister).toNat = (s.v.get offsetRegister).toUInt16 := by
      apply UInt16.toNat_inj.mp
      simp
    simp only [nextPc, hf, UInt16.ofNat_add, ofNat_addr, h, hv, State.landing]
  | skip test =>
    have hs : skips s held w = test.holds s held := skips_eq h
    simp only [State.landing, ← hs]
    cases test <;>
      simp only [Instruction.family, Instruction.testFamily] at hf <;>
      simp only [nextPc, hf] <;>
      split <;> exact ofNat_toNat_add _ _
  | _ =>
    simp only [Instruction.family] at hf
    simp only [nextPc, skips, hf, Bool.false_eq_true, ↓reduceIte, ofNat_toNat_add]
    rfl

/-- Returns, calls and all other instructions, told from their words. -/
theorem word_cases {w : Word} {instruction : Instruction Register}
    (h : Instruction.ofWord? w = some instruction) :
    (instruction = .ret ∧ w = 0x00EE) ∨
      (∃ addr, instruction = .call addr ∧ w ≠ 0x00EE ∧ Word.family w = 0x2) ∨
      (instruction ≠ .ret ∧ (∀ addr, instruction ≠ .call addr) ∧ w ≠ 0x00EE ∧
        Word.family w ≠ 0x2) := by
  rcases instruction.ret_or_call with rfl | ⟨addr, rfl⟩ | ⟨hr, hc⟩
  · exact .inl ⟨rfl, Instruction.ofWord?_eq_ret_iff.mp h⟩
  · have hf : Word.family w = 0x2 := Instruction.family_of_ofWord? h
    refine .inr (.inl ⟨addr, rfl, ?_, hf⟩)
    rintro rfl
    exact absurd hf (by decide)
  · refine .inr (.inr ⟨hr, hc, ?_, ?_⟩)
    · intro hw
      exact hr (Option.some.inj (h.symm.trans (Instruction.ofWord?_eq_ret_iff.mpr hw)))
    · intro hf
      exact hc _ (Option.some.inj (h.symm.trans (Instruction.ofWord?_eq_call_iff.mpr ⟨hf, rfl⟩)))

theorem nextCalls_eq {s : State} {w : Word} {instruction : Instruction Register}
    (h : Instruction.ofWord? w = some instruction) : nextCalls s w = s.callsAfter instruction := by
  unfold nextCalls
  rcases word_cases h with ⟨rfl, hw⟩ | ⟨addr, rfl, hw, hf⟩ | ⟨hr, hc, hw, hf⟩
  · rw [if_pos hw]; rfl
  · rw [if_neg hw, if_pos hf]; rfl
  · rw [if_neg hw, if_neg hf, State.callsAfter_of_ne hr hc]

/-- Only the words of family `C` draw a random byte. -/
theorem takesByte_eq {w : Word} {instruction : Instruction Register}
    (h : Instruction.ofWord? w = some instruction) :
    instruction.takesByte = decide (Word.family w = 0xC) := by
  rw [Instruction.family_of_ofWord? h]
  cases instruction with
  | skip test => cases test <;> rfl
  | _ => rfl

/-! ## Agreement -/

/-- A direct step is refused as `fault?` has it, and otherwise moves the machine on. -/
theorem step_of_ofWord? {m : Machine} {held : HeldKeys} {instruction : Instruction Register}
    (hwait : m.state.isWaiting = false)
    (h : Instruction.ofWord? m.state.fetch = some instruction) :
    step m held =
      match m.state.fault? instruction with
      | some fault => (.error fault, m)
      | none => (.ok (), m.advanced held instruction) := by
  have hwait' : m.state.awaiting.isSome = false := hwait
  have moved : ({ m with
      state := { m.state.effect m.source.peek instruction with
        pc := UInt16.ofNat (nextPc m.state held m.state.fetch)
        calls := nextCalls m.state m.state.fetch }
      source :=
        if Word.family m.state.fetch = 0xC then m.source.advance else m.source } : Machine) =
      m.advanced held instruction := by
    simp only [Machine.advanced, ofNat_nextPc h, nextCalls_eq h, takesByte_eq h, decide_eq_true_eq]
  simp only [step, hwait', Bool.false_eq_true, ↓reduceIte, word_eq_fetch, h, moved]
  rcases word_cases h with ⟨rfl, hw⟩ | ⟨addr, rfl, hw, hf⟩ | ⟨hr, hc, hw, hf⟩
  · have hf : ¬ Word.family 0x00EE = 0x2 := by decide
    by_cases hd : m.state.calls.depth = 0 <;> simp [State.fault?, hw, hf, hd]
  · by_cases hd : 32 ≤ m.state.calls.depth <;> simp [State.fault?, hw, hf, hd]
  · simp [State.fault?_of_ne hr hc, hw, hf]

theorem step_eq (m : Machine) (held : HeldKeys) :
    ((m.step held).result, (m.step held).machine) = step m held := by
  cases m.verdict m.state.fetch with
  | waiting h =>
    have h' : m.state.awaiting.isSome = true := h
    rw [Machine.step_of_waiting h]
    simp [step, h']
  | unknown h hw =>
    have h' : m.state.awaiting.isSome = false := h
    rw [Machine.step_of_unknown h hw]
    simp [step, h', word_eq_fetch, hw]
  | faulty h instruction fault hw hf =>
    rw [Machine.step_of_fault h hw hf, step_of_ofWord? h hw, hf]
  | runs h instruction hw hf =>
    rw [Machine.step_of_runs h hw hf, step_of_ofWord? h hw, hf]

theorem operate_eq (m : Machine) (held : HeldKeys) (op : Machine.Op) :
    ((m.operate held op).result, (m.operate held op).machine) = operate m held op := by
  cases op with
  | step => rw [operate, ← step_eq]; rfl
  | _ => rfl

theorem outcomes_eq (m : Machine) (ops : List (HeldKeys × Machine.Op)) :
    (m.outcomes ops).map (fun o => (o.result, o.machine)) = outcomes m ops := by
  induction ops generalizing m with
  | nil => rfl
  | cons first rest ih =>
    obtain ⟨held, op⟩ := first
    simp only [Machine.outcomes, outcomes, List.map_cons]
    rw [← operate_eq, ih]

end Direct

/-- **Steps and runs.** On every machine, with any keys down, a step gives the result and the
    machine that the direct step gives; so do all the operations of any run, of which any number
    may be steps. -/
theorem Machine.step_eq_direct (m : Machine) :
    (∀ held, ((m.step held).result, (m.step held).machine) = Direct.step m held) ∧
      ∀ ops, (m.outcomes ops).map (fun o => (o.result, o.machine)) = Direct.outcomes m ops :=
  ⟨Direct.step_eq m, Direct.outcomes_eq m⟩

end Chip8
