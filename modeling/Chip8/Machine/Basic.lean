import Chip8.ByteSource.Basic
import Chip8.Instruction.Decode
import Chip8.Journal
import Chip8.Machine.Flow
import Chip8.Machine.Program

/-!
# Machines

A state, a source of random bytes, and what the machine remembers of its subscription to a
keypad. Every operation says what came of it, what the machine is then, and what there is to
report; an operation that fails leaves the machine as it was.

* `Machine.load`, `Machine.read`: load a program.
* `Machine.execute`, `Machine.step`: perform a given instruction, or the next one.
* `Machine.tick`, `Machine.hear`, `Machine.reset`, `Machine.takeFrame`: the clock, the keypad and
  the display.
* `Machine.Op`, `Machine.perform`: the operations as data, for runs of any of them.
-/

namespace Chip8

/-- What a machine remembers of its subscription to a keypad. -/
inductive Subscription where
  /-- It never subscribed. -/
  | never
  /-- It holds this ticket. -/
  | active (ticket : Ticket)
  /-- It gave its ticket back. -/
  | ended
  deriving Repr, DecidableEq

/-- A machine. -/
structure Machine where
  state : State
  source : ByteSource
  subscription : Subscription

/-- What came of an operation, the machine after it, and what there is to report. -/
structure Outcome (α : Type) where
  result : Except Fault α
  machine : Machine
  entries : List Entry

/-- The same outcome with another form of its result. -/
def Outcome.map {α β : Type} (f : α → β) (o : Outcome α) : Outcome β :=
  ⟨o.result.map f, o.machine, o.entries⟩

namespace Machine

/-- A machine at its start that draws its random bytes from `source`. -/
def new (source : ByteSource) : Machine := ⟨.initial, source, .never⟩

/-- Whether the machine is subscribed to its keypad. -/
def isAttached (m : Machine) : Bool :=
  match m.subscription with
  | .active _ => true
  | .never | .ended => false

/-- Loads a program image. -/
def load (m : Machine) (image : Array UInt8) : Outcome Loaded :=
  let loaded := Loaded.ofSize image.size
  let entry := match loaded with
    | .complete size => Entry.loaded size
    | .truncated kept size => Entry.truncated size kept
  ⟨.ok loaded, { m with state := m.state.load image }, [entry]⟩

/-- Loads the program that a reader holds. -/
def read (m : Machine) (outcomes : List ReadOutcome) : Outcome Loaded :=
  match readToEnd outcomes with
  | .ok image => m.load image
  | .error fault => ⟨.error fault, m, []⟩

/-- The report on a fault in an instruction at `pc`. -/
def faultEntries (pc : UInt16) : Fault → List Entry
  | .stackOverflow _ => [.overflow pc]
  | .stackUnderflow => [.underflow pc]
  | .unknownInstruction w => [.unknown w pc]
  | .blocked | .unreadable _ => []

/-- The report that an instruction is about to be performed. -/
def executingEntry (s : State) (w : Word) (instruction : Instruction Register) : Entry :=
  .executing s.pc w instruction s.v s.i

/-- Performs a decoded instruction. The random source moves on if the instruction draws from it. -/
def perform (m : Machine) (held : HeldKeys) (instruction : Instruction Register) :
    Except Fault Machine := do
  let state ← m.state.perform held m.source.peek instruction
  return { m with state, source := if instruction.takesByte then m.source.advance else m.source }

/-- Performs the instruction `w` stands for, but does not move on behind it. Nothing can be
    performed while the program waits for a key. -/
def execute (m : Machine) (held : HeldKeys) (w : Word) : Outcome Unit :=
  if m.state.isWaiting then ⟨.error .blocked, m, []⟩
  else
    match Instruction.decode w with
    | .error fault => ⟨.error fault, m, faultEntries m.state.pc fault⟩
    | .ok instruction =>
      let entry := executingEntry m.state w instruction
      match m.perform held instruction with
      | .ok after => ⟨.ok (), after, [entry]⟩
      | .error fault => ⟨.error fault, m, entry :: faultEntries m.state.pc fault⟩

/-- Performs the next instruction and moves on behind it. A machine that waits for a key stands
    still. -/
def step (m : Machine) (held : HeldKeys) : Outcome Unit :=
  if m.state.isWaiting then ⟨.ok (), m, []⟩
  else
    let outcome := m.execute held m.state.fetch
    match outcome.result with
    | .ok () =>
      { outcome with machine := { outcome.machine with state := outcome.machine.state.moveOn } }
    | .error _ => outcome

/-- One tick of both timers. -/
def tick (m : Machine) : Machine := { m with state := m.state.tick }

/-- A key goes down. -/
def hear (m : Machine) (key : UInt8) : Machine := { m with state := m.state.hear key }

/-- Back to the state at the start. The random source and the subscription stay as they are. -/
def reset (m : Machine) : Machine := { m with state := .initial }

/-- The screen, if it was drawn on since it was last taken. -/
def takeFrame (m : Machine) : Option Screen × Machine :=
  if m.state.redraw then (some m.state.screen, { m with state := { m.state with redraw := false } })
  else (none, m)

/-! ## Operations as data -/

/-- What can be asked of a machine. -/
inductive Op where
  | load (image : Array UInt8)
  | read (outcomes : List ReadOutcome)
  | execute (w : Word)
  | step
  | tick
  | hear (key : UInt8)
  | reset
  | takeFrame
  deriving Repr, DecidableEq

/-- What an operation gives back. -/
inductive Gain where
  | nothing
  | loaded (loaded : Loaded)
  | frame (screen : Option Screen)
  deriving DecidableEq

/-- Carries out an operation while `held` are the keys that are down. -/
def operate (m : Machine) (held : HeldKeys) : Op → Outcome Gain
  | .load image => (m.load image).map .loaded
  | .read outcomes => (m.read outcomes).map .loaded
  | .execute w => (m.execute held w).map fun _ => .nothing
  | .step => (m.step held).map fun _ => .nothing
  | .tick => ⟨.ok .nothing, m.tick, []⟩
  | .hear key => ⟨.ok .nothing, m.hear key, []⟩
  | .reset => ⟨.ok .nothing, m.reset, []⟩
  | .takeFrame => ⟨.ok (.frame m.takeFrame.1), m.takeFrame.2, []⟩

/-- The outcomes of a list of operations one after the other, each with the keys that are down at
    the time. -/
def outcomes (m : Machine) : List (HeldKeys × Op) → List (Outcome Gain)
  | [] => []
  | (held, op) :: rest =>
    let outcome := m.operate held op
    outcome :: outcome.machine.outcomes rest

/-- The machine after a list of operations. -/
def run (m : Machine) (ops : List (HeldKeys × Op)) : Machine :=
  ops.foldl (fun m (held, op) => (m.operate held op).machine) m

end Machine

end Chip8
