import Chip8.Fault
import Chip8.Machine.Effect
import Chip8.Keypad.Basic

/-!
# Where control goes

A machine moves on by one instruction after each it performs. A branch therefore aims one
instruction short of its target, and a skip adds one instruction of its own.

* `Test.holds`: whether a skip skips.
* `Flow`: where control goes after an instruction, and `State.flow`, which way it is.
* `State.follow`: the program counter and call stack after that, before the machine moves on.
* `State.perform`: an instruction with its effect and its flow; a fault leaves no state.
-/

namespace Chip8

/-- Whether the test of a skip holds. -/
def Test.holds (s : State) (held : HeldKeys) : Test Register → Bool
  | equalByte x kk => s.v.get x == kk
  | unequalByte x kk => s.v.get x != kk
  | equal x y => s.v.get x == s.v.get y
  | unequal x y => s.v.get x != s.v.get y
  | keyDown x => held.isDown (s.v.get x)
  | keyUp x => !held.isDown (s.v.get x)

/-- Where control goes after an instruction. -/
inductive Flow where
  /-- To the instruction behind it. -/
  | next
  /-- Past the instruction behind it. -/
  | skip
  /-- To another place. -/
  | jump (target : UInt16)
  /-- Into the subroutine at a place. -/
  | call (target : UInt16)
  /-- Back out of a subroutine. -/
  | ret
  deriving Repr, DecidableEq

namespace State

/-- Which way control goes after an instruction. -/
def flow (s : State) (held : HeldKeys) : Instruction Register → Flow
  | .ret => .ret
  | .jump addr => .jump addr
  | .call addr => .call addr
  | .jumpOffset addr => .jump (addr + (s.v.get offsetRegister).toUInt16)
  | .skip test => if test.holds s held then .skip else .next
  | _ => .next

/-- The program counter one instruction short of `target`. -/
def aimAt (s : State) (target : UInt16) : State := { s with pc := target - instructionSize }

/-- The program counter moved on by one instruction. -/
def moveOn (s : State) : State := { s with pc := s.pc + instructionSize }

/-- The state after control went its way, before the machine moves on. -/
def follow (s : State) : Flow → Except Fault State
  | .next => .ok s
  | .skip => .ok s.moveOn
  | .jump target => .ok (s.aimAt target)
  | .call target =>
    match s.calls.push? s.pc with
    | some calls => .ok (aimAt { s with calls } target)
    | none => .error (.stackOverflow CallStack.capacity)
  | .ret =>
    match s.calls.pop? with
    | some (pc, calls) => .ok { s with pc, calls }
    | none => .error .stackUnderflow

/-- The state after an instruction, before the machine moves on. -/
def perform (s : State) (held : HeldKeys) (byte : UInt8) (instruction : Instruction Register) :
    Except Fault State :=
  (s.effect byte instruction).follow (s.flow held instruction)

end State

end Chip8
