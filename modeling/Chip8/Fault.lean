import Chip8.Text.Numeral
import Chip8.Instruction.Basic

/-!
# Faults

What can go wrong while a machine is driven, each with its cause, and the wording of each.
-/

namespace Chip8

/-- Why an operation on a machine failed. -/
inductive Fault where
  /-- A call was made while `depth` subroutines were still open, which is as many as fit. -/
  | stackOverflow (depth : Nat)
  /-- A return was made outside any subroutine. -/
  | stackUnderflow
  /-- The word is no instruction. -/
  | unknownInstruction (w : Word)
  /-- An instruction was handed over while the machine waits for a key. -/
  | blocked
  /-- The program could not be read to its end, for the given reason. -/
  | unreadable (reason : String)
  deriving Repr, DecidableEq

/-- The fault in words. -/
def Fault.message : Fault → String
  | stackOverflow depth =>
    "stack overflow: more than " ++ Numeral.decimal depth ++ " nested subroutine calls"
  | stackUnderflow => "stack underflow: return with an empty call stack"
  | unknownInstruction w => "unknown instruction " ++ Numeral.word w
  | blocked => "machine is blocked waiting for a key press"
  | unreadable reason => "unable to read program: " ++ reason

end Chip8
