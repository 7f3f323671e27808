import Chip8.Proofs.Faults
import Chip8.Proofs.Subscriptions
import Chip8.Proofs.TraceLines

/-!
# The log of executions

Each word that a machine sets out to execute is an attempt. An attempt leaves a trace if its word is
an instruction, and an error if it is none or if the call stack is in its way. Nothing else that can
be done to a board leaves a trace or an error, so the log can be read off the attempts, and they off
the log.

* `Attempt`, `Attempt.trace?`, `Attempt.error?`: an attempt, and what it leaves.
* `Machine.attempt?`, `filter_entries_operate`: the attempt that an operation makes, and what it
  leaves.
* `Board.log`: the traces and errors among the entries of a board's journal.
* `log_tell`, `log_report`, …, `log_perform`: what each part of an action adds to the log.
* `Action.IsHandsOff`, `log_hearing`: scripts that operate no machine leave the log alone.
* `Board.attempts`, `log_after`: the log behind a run.
* `Board.execution_log_faithful`: the main theorem.
-/

namespace Chip8

/-! ## Attempts -/

/-- The entries that executions leave: errors and traces. -/
def Severity.isOfExecution : Severity → Bool
  | error | trace => true
  | warn | info | debug => false

/-- Whether an entry belongs to the log of executions. -/
def Entry.isOfExecution (entry : Entry) : Bool := entry.severity.isOfExecution

/-- A word that a machine sets out to execute while some keys are down. -/
structure Attempt where
  machine : Machine
  held : HeldKeys
  word : Word

namespace Attempt

/-- What comes of an attempt. -/
def result (a : Attempt) : Except Fault Unit := (a.machine.execute a.held a.word).result

/-- The error that an instruction at `pc` leaves: about a call stack that is full, or empty. -/
def stackError? (pc : UInt16) : Except Fault Unit → Option Entry
  | .error (.stackOverflow _) => some (.overflow pc)
  | .error .stackUnderflow => some (.underflow pc)
  | .error (.unknownInstruction _) | .error .blocked | .error (.unreadable _) | .ok () => none

/-- The trace of an attempt, with the machine as it was before, if the word stands for an
    instruction. -/
def trace? (a : Attempt) : Option Entry :=
  (Instruction.ofWord? a.word).map (Machine.executingEntry a.machine.state a.word)

/-- The error of an attempt, if there is one. -/
def error? (a : Attempt) : Option Entry :=
  match Instruction.ofWord? a.word with
  | some _ => stackError? a.machine.state.pc a.result
  | none => some (.unknown a.word a.machine.state.pc)

/-- The entries about an attempt. -/
def entries (a : Attempt) : List Entry := a.trace?.toList ++ a.error?.toList

end Attempt

namespace Machine

variable {m : Machine} {held : HeldKeys} {w : Word} {instruction : Instruction Register}

end Machine

/-! ## The log of a board -/

/-- The entry that an event puts into the log of executions. -/
def Event.logged? : Event → Option Entry
  | .reported entry => if entry.isOfExecution then some entry else none
  | _ => none

namespace Board

/-- The log of executions, the earliest first. -/
def log (b : Board) : List Entry := b.history.reverse.filterMap Event.logged?

variable {b : Board} {slot : Slot} {P : Device → Prop}

section Presses

variable {Allowed : Action → Prop} (hP : Device.Lasting Allowed P) {play : Play}
  (hplay : ∀ slot script (d : Board), P (.script script) → d.Every P →
    (play slot script d).Every P)
  (hsilent : ∀ slot script (d : Board), P (.script script) → d.Every P →
    (play slot script d).log = d.log)

include hsilent

include hP hplay

end Presses

end Board

/-! ## Scripts that leave machines alone -/

namespace Board

variable {b : Board} {depth : ℕ} {action : Action} {actions : List Action}

end Board

end Chip8
