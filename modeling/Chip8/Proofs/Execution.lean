import Chip8.Machine.Basic
import Chip8.Proofs.Decoding

/-!
# One instruction

What becomes of a machine that is handed an instruction word, or performs its next one. An
execution has four ways to go, told apart by `Machine.Verdict`, and `execute` and `step` have one
equation for each; everything else about them follows from these.

* `pc_effect`, `calls_effect`, `awaiting_effect`: data effects leave control alone.
* `perform_eq`: an instruction performed is its fault, or its effect with the program counter and
  the call stack replaced.
* `Machine.verdict`: every execution is of one of the four kinds.
-/

namespace Chip8

/-! ## The call stack -/

theorem CallStack.push?_eq (c : CallStack) (back : UInt16) :
    c.push? back =
      if 32 ≤ c.depth then none else some ⟨c.slots.setIfInBounds c.depth back, c.depth + 1⟩ := by
  unfold push?
  by_cases h : c.depth < 32
  · have set_eq : c.slots.set c.depth back h = c.slots.setIfInBounds c.depth back := by
      apply Vector.ext
      intro k hk
      rw [Vector.getElem_set, Vector.getElem_setIfInBounds]
    rw [dif_pos h, if_neg (by omega), set_eq]
  · rw [dif_neg h, if_pos (by omega)]

theorem CallStack.pop?_eq (c : CallStack) :
    c.pop? =
      if c.depth = 0 then none
      else some (c.slots[c.depth - 1]?.getD 0, { c with depth := c.depth - 1 }) := by
  unfold pop?
  split
  · next h => rw [if_pos h]
  · next d h => rw [if_neg (by omega), h, Nat.succ_sub_one]

/-- Returns and calls are the two instructions that use the call stack. -/
theorem Instruction.ret_or_call (instruction : Instruction Register) :
    instruction = .ret ∨ (∃ addr, instruction = .call addr) ∨
      (instruction ≠ .ret ∧ ∀ addr, instruction ≠ .call addr) := by
  cases instruction with
  | ret => exact .inl rfl
  | call addr => exact .inr (.inl ⟨addr, rfl⟩)
  | _ => exact .inr (.inr ⟨by simp, by simp⟩)

namespace State

/-! ## Effects leave control alone -/

theorem exists_combine (s : State) (op : Operation) (x y : Register) :
    ∃ v, s.combine op x y = { s with v } := by
  unfold combine
  split <;> exact ⟨_, rfl⟩

theorem exists_loadRegisters (s : State) (x : Register) :
    ∃ v i, s.loadRegisters x = { s with v, i } :=
  ⟨_, _, rfl⟩

/-- Neither the program counter nor the call stack changes, and only the instruction that waits for
    a key makes a register wait. -/
theorem effect_control (s : State) (byte : UInt8) (instruction : Instruction Register) :
    (s.effect byte instruction).pc = s.pc ∧ (s.effect byte instruction).calls = s.calls ∧
      (s.effect byte instruction).awaiting =
        match instruction with
        | .awaitKey x => some x
        | _ => s.awaiting := by
  cases instruction with
  | combine op x y =>
    obtain ⟨v, hv⟩ := s.exists_combine op x y
    simp [effect, hv]
  | loadRegisters x =>
    obtain ⟨v, i, hv⟩ := s.exists_loadRegisters x
    simp [effect, hv]
  | _ => exact ⟨rfl, rfl, rfl⟩

@[simp] theorem pc_effect (s : State) (byte : UInt8) (instruction : Instruction Register) :
    (s.effect byte instruction).pc = s.pc :=
  (s.effect_control byte instruction).1

@[simp] theorem calls_effect (s : State) (byte : UInt8) (instruction : Instruction Register) :
    (s.effect byte instruction).calls = s.calls :=
  (s.effect_control byte instruction).2.1

theorem awaiting_effect (s : State) (byte : UInt8) (instruction : Instruction Register) :
    (s.effect byte instruction).awaiting =
      match instruction with
      | .awaitKey x => some x
      | _ => s.awaiting :=
  (s.effect_control byte instruction).2.2

/-! ## Control -/

/-- The fault of an instruction, if it cannot be performed. -/
def fault? (s : State) : Instruction Register → Option Fault
  | .ret => if s.calls.depth = 0 then some .stackUnderflow else none
  | .call _ => if 32 ≤ s.calls.depth then some (.stackOverflow 32) else none
  | _ => none

/-- The call stack behind an instruction that can be performed. -/
def callsAfter (s : State) : Instruction Register → CallStack
  | .ret => { s.calls with depth := s.calls.depth - 1 }
  | .call _ => ⟨s.calls.slots.setIfInBounds s.calls.depth s.pc, s.calls.depth + 1⟩
  | _ => s.calls

/-- Where the program counter lands behind an instruction that can be performed. -/
def landing (s : State) (held : HeldKeys) : Instruction Register → UInt16
  | .ret => s.calls.slots[s.calls.depth - 1]?.getD 0 + 2
  | .jump addr | .call addr => addr
  | .jumpOffset addr => addr + (s.v.get offsetRegister).toUInt16
  | .skip test => if test.holds s held then s.pc + 4 else s.pc + 2
  | _ => s.pc + 2

theorem fault?_of_ne {s : State} {instruction : Instruction Register} (hr : instruction ≠ .ret)
    (hc : ∀ addr, instruction ≠ .call addr) : s.fault? instruction = none := by
  cases instruction with
  | ret => exact absurd rfl hr
  | call addr => exact absurd rfl (hc addr)
  | _ => rfl

theorem callsAfter_of_ne {s : State} {instruction : Instruction Register} (hr : instruction ≠ .ret)
    (hc : ∀ addr, instruction ≠ .call addr) : s.callsAfter instruction = s.calls := by
  cases instruction with
  | ret => exact absurd rfl hr
  | call addr => exact absurd rfl (hc addr)
  | _ => rfl

/-- An instruction is refused with its fault, or has its effect and takes control along. -/
theorem perform_eq (s : State) (held : HeldKeys) (byte : UInt8)
    (instruction : Instruction Register) :
    s.perform held byte instruction =
      match s.fault? instruction with
      | some fault => .error fault
      | none => .ok { s.effect byte instruction with
          pc := s.landing held instruction - 2, calls := s.callsAfter instruction } := by
  have next : ∀ t : State, t.pc = s.pc → t.calls = s.calls →
      t = { t with pc := s.pc + 2 - 2, calls := s.calls } := by
    intro t hp hc
    rw [UInt16.add_sub_cancel, ← hp, ← hc]
  cases instruction with
  | ret =>
    simp only [perform, flow, follow, effect, CallStack.pop?_eq, fault?, landing, callsAfter]
    by_cases hd : s.calls.depth = 0
    · simp [hd]
    · simp [hd]
  | call addr =>
    simp only [perform, flow, follow, effect, CallStack.push?_eq, fault?, landing, callsAfter,
      aimAt]
    by_cases hd : 32 ≤ s.calls.depth
    · simp [hd, CallStack.capacity]
    · simp [hd, instructionSize]
  | jump addr => rfl
  | jumpOffset addr => rfl
  | skip test =>
    simp only [perform, flow, effect, fault?, landing, callsAfter]
    split
    · have : s.pc + 4 - 2 = s.pc + 2 := by
        rw [show (4 : UInt16) = 2 + 2 by rfl, ← UInt16.add_assoc, UInt16.add_sub_cancel]
      simp [follow, moveOn, instructionSize, this]
    · exact congrArg Except.ok (next s rfl rfl)
  | _ => exact congrArg Except.ok (next _ (pc_effect s byte _) (calls_effect s byte _))

/-- An instruction that control goes on behind is its effect. -/
theorem perform_of_next {s : State} {held : HeldKeys} {instruction : Instruction Register}
    (h : s.flow held instruction = .next) (byte : UInt8) :
    s.perform held byte instruction = .ok (s.effect byte instruction) := by
  unfold perform
  rw [h]
  rfl

end State

namespace Machine

/-- The machine behind an instruction that can be performed, with its program counter still one
    instruction short. -/
def performed (m : Machine) (held : HeldKeys) (instruction : Instruction Register) : Machine :=
  { m with
    state := { m.state.effect m.source.peek instruction with
      pc := m.state.landing held instruction - 2, calls := m.state.callsAfter instruction }
    source := if instruction.takesByte then m.source.advance else m.source }

/-- The machine behind an instruction that can be performed. -/
def advanced (m : Machine) (held : HeldKeys) (instruction : Instruction Register) : Machine :=
  { m with
    state := { m.state.effect m.source.peek instruction with
      pc := m.state.landing held instruction, calls := m.state.callsAfter instruction }
    source := if instruction.takesByte then m.source.advance else m.source }

/-- How the execution of a word on a machine turns out. -/
inductive Verdict (m : Machine) (w : Word) : Prop where
  /-- The machine waits for a key. -/
  | waiting (h : m.state.isWaiting = true)
  /-- The word is no instruction. -/
  | unknown (h : m.state.isWaiting = false) (hw : Instruction.ofWord? w = none)
  /-- The instruction cannot be performed. -/
  | faulty (h : m.state.isWaiting = false) (instruction : Instruction Register) (fault : Fault)
      (hw : Instruction.ofWord? w = some instruction) (hf : m.state.fault? instruction = some fault)
  /-- The instruction is performed. -/
  | runs (h : m.state.isWaiting = false) (instruction : Instruction Register)
      (hw : Instruction.ofWord? w = some instruction) (hf : m.state.fault? instruction = none)

theorem verdict (m : Machine) (w : Word) : m.Verdict w := by
  cases h : m.state.isWaiting with
  | true => exact .waiting h
  | false =>
    cases hw : Instruction.ofWord? w with
    | none => exact .unknown h hw
    | some instruction =>
      cases hf : m.state.fault? instruction with
      | some fault => exact .faulty h instruction fault hw hf
      | none => exact .runs h instruction hw hf

section Execute

variable {m : Machine} {held : HeldKeys} {w : Word} {instruction : Instruction Register}
  {fault : Fault}

theorem execute_of_waiting (h : m.state.isWaiting = true) :
    m.execute held w = ⟨.error .blocked, m, []⟩ := by
  simp [execute, h]

theorem execute_of_unknown (h : m.state.isWaiting = false)
    (hw : Instruction.ofWord? w = none) :
    m.execute held w = ⟨.error (.unknownInstruction w), m, [.unknown w m.state.pc]⟩ := by
  simp [execute, h, Instruction.decode, hw, faultEntries]

theorem execute_of_fault (h : m.state.isWaiting = false)
    (hw : Instruction.ofWord? w = some instruction) (hf : m.state.fault? instruction = some fault) :
    m.execute held w = ⟨.error fault, m,
      executingEntry m.state w instruction :: faultEntries m.state.pc fault⟩ := by
  have hp : m.perform held instruction = .error fault := by
    simp [perform, State.perform_eq, hf, bind, Except.bind]
  simp [execute, h, Instruction.decode, hw, hp]

theorem execute_of_runs (h : m.state.isWaiting = false)
    (hw : Instruction.ofWord? w = some instruction) (hf : m.state.fault? instruction = none) :
    m.execute held w =
      ⟨.ok (), m.performed held instruction, [executingEntry m.state w instruction]⟩ := by
  have hp : m.perform held instruction = .ok (m.performed held instruction) := by
    simp [perform, State.perform_eq, hf, bind, Except.bind, pure, Except.pure, performed]
  simp [execute, h, Instruction.decode, hw, hp]

theorem execute_of_next (h : m.state.isWaiting = false)
    (hw : Instruction.ofWord? w = some instruction) (hf : m.state.flow held instruction = .next) :
    m.execute held w = ⟨.ok (), { m with
        state := m.state.effect m.source.peek instruction
        source := if instruction.takesByte then m.source.advance else m.source },
      [executingEntry m.state w instruction]⟩ := by
  have hp := State.perform_of_next hf m.source.peek
  simp [execute, h, Instruction.decode, hw, perform, hp, bind, Except.bind, pure, Except.pure]

/-- A word leaves the machine as it is unless it stands for an instruction that is performed. -/
theorem execute_cases (m : Machine) (held : HeldKeys) (w : Word) :
    (m.execute held w).machine = m ∨ ∃ instruction, m.state.isWaiting = false ∧
      Instruction.ofWord? w = some instruction ∧ m.state.fault? instruction = none := by
  cases m.verdict w with
  | waiting hwait => exact .inl (by rw [execute_of_waiting hwait])
  | unknown hwait hw => exact .inl (by rw [execute_of_unknown hwait hw])
  | faulty hwait instruction fault hw hf => exact .inl (by rw [execute_of_fault hwait hw hf])
  | runs hwait instruction hw hf => exact .inr ⟨instruction, hwait, hw, hf⟩

theorem step_of_waiting (h : m.state.isWaiting = true) : m.step held = ⟨.ok (), m, []⟩ := by
  simp [step, h]

theorem step_of_unknown (h : m.state.isWaiting = false)
    (hw : Instruction.ofWord? m.state.fetch = none) :
    m.step held = ⟨.error (.unknownInstruction m.state.fetch), m,
      [.unknown m.state.fetch m.state.pc]⟩ := by
  simp [step, h, execute_of_unknown h hw]

theorem step_of_fault (h : m.state.isWaiting = false)
    (hw : Instruction.ofWord? m.state.fetch = some instruction)
    (hf : m.state.fault? instruction = some fault) :
    m.step held = ⟨.error fault, m,
      executingEntry m.state m.state.fetch instruction :: faultEntries m.state.pc fault⟩ := by
  simp [step, h, execute_of_fault h hw hf]

theorem step_of_runs (h : m.state.isWaiting = false)
    (hw : Instruction.ofWord? m.state.fetch = some instruction)
    (hf : m.state.fault? instruction = none) :
    m.step held = ⟨.ok (), m.advanced held instruction,
      [executingEntry m.state m.state.fetch instruction]⟩ := by
  simp [step, h, execute_of_runs h hw hf, performed, advanced, State.moveOn, instructionSize]

/-- So does a step, if the word in memory is no such instruction. -/
theorem step_cases (m : Machine) (held : HeldKeys) :
    (m.step held).machine = m ∨ ∃ instruction, m.state.isWaiting = false ∧
      Instruction.ofWord? m.state.fetch = some instruction ∧
        m.state.fault? instruction = none := by
  cases m.verdict m.state.fetch with
  | waiting hwait => exact .inl (by rw [step_of_waiting hwait])
  | unknown hwait hw => exact .inl (by rw [step_of_unknown hwait hw])
  | faulty hwait instruction fault hw hf => exact .inl (by rw [step_of_fault hwait hw hf])
  | runs hwait instruction hw hf => exact .inr ⟨instruction, hwait, hw, hf⟩

end Execute

end Machine

end Chip8
