import Chip8.CallStack
import Chip8.Memory
import Chip8.Screen.Basic

/-!
# The state of a machine

All that a running program can change: sixteen byte registers, the index register, the program
counter, the open subroutines, two timers, memory, and the screen; with the mark that the screen
was drawn on, and the register that waits for a key.

* `State.initial`: how a machine starts.
* `State.fetch`: the word that the program counter points at.
* `State.tick`: a sixtieth of a second passes for the timers.
* `State.hear`: a key goes down.
-/

namespace Chip8

/-- The state of a machine. -/
structure State where
  /-- The registers V0 to VF. -/
  v : Vector UInt8 16
  /-- The index register, an address. -/
  i : UInt16
  /-- The program counter. It wraps at sixteen bits, and memory at twelve. -/
  pc : UInt16
  /-- The open subroutines. -/
  calls : CallStack
  /-- The delay timer. -/
  delay : UInt8
  /-- The sound timer; a tone sounds while it is not zero. -/
  sound : UInt8
  memory : Memory
  screen : Screen
  /-- Whether the screen was drawn on since it was last shown. -/
  redraw : Bool
  /-- The register that the next key goes to, if the program waits for one. -/
  awaiting : Option Register
  deriving DecidableEq

namespace State

/-- How a machine starts: all zero, the glyphs in memory, the program counter at the start of the
    program area. -/
def initial : State where
  v := Vector.replicate 16 0
  i := 0
  pc := Memory.programStart
  calls := .empty
  delay := 0
  sound := 0
  memory := .initial
  screen := .blank
  redraw := false
  awaiting := none

/-- How often the timers tick, in hertz. -/
def timerFrequency : Nat := 60

/-- The word that the program counter points at. -/
def fetch (s : State) : Word := s.memory.word s.pc

/-- Whether the program waits for a key. -/
def isWaiting (s : State) : Bool := s.awaiting.isSome

/-- Whether a tone sounds. -/
def isSounding (s : State) : Bool := 0 < s.sound

/-- A timer counted down by one, but not below zero. -/
def countDown (timer : UInt8) : UInt8 := if timer = 0 then 0 else timer - 1

/-- The state after one tick of both timers. -/
def tick (s : State) : State :=
  { s with delay := countDown s.delay, sound := countDown s.sound }

/-- The state after a key goes down: the waiting register, if there is one, becomes its number. -/
def hear (s : State) (key : UInt8) : State :=
  match s.awaiting with
  | some x => { s with v := s.v.set x key, awaiting := none }
  | none => s

/-- The state with one register replaced. -/
def setV (s : State) (x : Register) (value : UInt8) : State := { s with v := s.v.set x value }

/-- The state with the flag register replaced. -/
def setFlag (s : State) (flag : UInt8) : State := s.setV flagRegister flag

/-- A truth as a flag. -/
def flagOf (b : Bool) : UInt8 := if b then 1 else 0

theorem toNat_countDown (timer : UInt8) : (countDown timer).toNat = timer.toNat - 1 := by
  unfold countDown
  split
  · next h => simp [h]
  · next h =>
    have : 1 ≤ timer.toNat := by
      have : timer.toNat ≠ 0 := fun c => h (UInt8.toNat_inj.mp (by simpa using c))
      omega
    rw [UInt8.toNat_sub_of_le _ _ (UInt8.le_iff_toNat_le.mpr (by simpa using this))]; rfl

theorem get_setV (s : State) (x y : Register) (value : UInt8) :
    (s.setV x value).v.get y = if x = y then value else s.v.get y := by
  change (s.v.set x.val value)[y.val] = if x = y then value else s.v[y.val]
  simp only [Vector.getElem_set, Fin.val_inj]

@[simp] theorem get_setV_self (s : State) (x : Register) (value : UInt8) :
    (s.setV x value).v.get x = value := by
  simp [get_setV]

end State

end Chip8
