import Chip8.Fault
import Chip8.Machine.State

/-!
# Loading programs

A program image goes into memory at the start of the program area. What does not fit is left
out, and what was there before is gone.

* `Loaded`: how much of an image was taken, and `Loaded.ofSize`, the rule for it.
* `State.load`: the state with a program loaded.
* `ReadOutcome`, `readToEnd`: an image that arrives piece by piece from a reader.
-/

namespace Chip8

/-- How much of a program image was taken. -/
inductive Loaded where
  /-- All of its `size` bytes. -/
  | complete (size : Nat)
  /-- The first `kept` of its `size` bytes. -/
  | truncated (kept size : Nat)
  deriving Repr, DecidableEq

/-- How much is taken of an image of a given size. -/
def Loaded.ofSize (size : Nat) : Loaded :=
  if size ≤ Memory.programCapacity then complete size else truncated Memory.programCapacity size

/-- The state with a program in the program area and the program counter at its start. -/
def State.load (s : State) (image : Array UInt8) : State :=
  { s with memory := s.memory.withProgram image, pc := Memory.programStart }

/-- What one attempt to read from a reader brings. -/
inductive ReadOutcome where
  /-- Some bytes; none at all mean that the reader is at its end. -/
  | chunk (bytes : Array UInt8)
  /-- Nothing, but trying again is worth it. -/
  | interrupted
  /-- Nothing, for a reason that will not go away. -/
  | failed (reason : String)
  deriving Repr, DecidableEq

/-- The bytes that a reader holds behind those `read` so far, or why it could not be read to its
    end. Interruptions change nothing. A reader without further outcomes is at its end. -/
def readFrom (read : Array UInt8) : List ReadOutcome → Except Fault (Array UInt8)
  | [] => .ok read
  | .chunk bytes :: rest => if bytes.isEmpty then .ok read else readFrom (read ++ bytes) rest
  | .interrupted :: rest => readFrom read rest
  | .failed reason :: _ => .error (.unreadable reason)

/-- All the bytes of a reader, or why it could not be read to its end. -/
def readToEnd (outcomes : List ReadOutcome) : Except Fault (Array UInt8) := readFrom #[] outcomes

end Chip8
