import Chip8.Instruction.Listing
import Chip8.Keypad.Basic

/-!
# The journal

What a machine and its keypad have to report, each entry with its severity and wording.

* `Severity`: how much an entry matters, from errors down to traces.
* `Entry`: what there is to report, as data.
* `Entry.severity`, `Entry.text`: the severity and the wording of an entry.
-/

namespace Chip8

/-- How much a journal entry matters. -/
inductive Severity where
  | error
  | warn
  | info
  | debug
  | trace
  deriving Repr, DecidableEq

/-- The place of a severity, the gravest first. -/
def Severity.rank : Severity → Nat
  | error => 0
  | warn => 1
  | info => 2
  | debug => 3
  | trace => 4

/-- What there is to report. -/
inductive Entry where
  /-- A program of `size` bytes was loaded whole. -/
  | loaded (size : Nat)
  /-- Of a program of `size` bytes the first `kept` were loaded. -/
  | truncated (size kept : Nat)
  /-- The word is no instruction. -/
  | unknown (w : Word) (pc : UInt16)
  /-- An instruction is about to be performed, with these registers. -/
  | executing (pc : UInt16) (w : Word) (instruction : Instruction Register)
      (v : Vector UInt8 16) (i : UInt16)
  /-- A return outside any subroutine. -/
  | underflow (pc : UInt16)
  /-- A call when no further subroutine can be opened. -/
  | overflow (pc : UInt16)
  /-- A press of what is no key. -/
  | pressIgnored (key : UInt8)
  /-- A release of what is no key. -/
  | releaseIgnored (key : UInt8)
  /-- A listener could not be told of a press. -/
  | pressDropped (key : UInt8)
  /-- A listener that holds a ticket asked for another. -/
  | alreadyRegistered (ticket : Ticket)
  /-- A ticket was given back that nobody holds. -/
  | notRegistered (ticket : Ticket)
  deriving Repr, DecidableEq

namespace Entry

/-- The severity of an entry. -/
def severity : Entry → Severity
  | unknown _ _ | underflow _ | overflow _ => .error
  | truncated _ _ | pressIgnored _ | releaseIgnored _ | pressDropped _
  | alreadyRegistered _ | notRegistered _ => .warn
  | loaded _ => .info
  | executing _ _ _ _ _ => .trace

/-- Registers side by side: two digits each. -/
def registersText (v : Vector UInt8 16) : String :=
  "[" ++ ", ".intercalate (v.toList.map fun b => Numeral.hex 2 b.toNat) ++ "]"

/-- A ticket as it is named in the journal. -/
def ticketText (ticket : Ticket) : String := "ListenerId(" ++ Numeral.decimal ticket.number ++ ")"

/-- The wording of an entry. -/
def text : Entry → String
  | loaded size => "loaded " ++ Numeral.decimal size ++ " byte program"
  | truncated size kept =>
    "program is " ++ Numeral.decimal size ++ " bytes but only " ++ Numeral.decimal kept
      ++ " fit; loaded a truncated image"
  | unknown w pc => "unknown instruction " ++ Numeral.word w ++ " at " ++ Numeral.address pc
  | executing pc w instruction v i =>
    Numeral.hex 4 pc.toNat ++ " " ++ Numeral.hex 4 w.toNat ++ " "
      ++ Numeral.padRight 16 instruction.listing ++ " v" ++ registersText v
      ++ " i" ++ Numeral.hex 4 i.toNat
  | underflow pc => "stack underflow at " ++ Numeral.address pc
  | overflow pc => "stack overflow at " ++ Numeral.address pc
  | pressIgnored key => "ignoring press of key " ++ Numeral.byte key
  | releaseIgnored key => "ignoring release of key " ++ Numeral.byte key
  | pressDropped key =>
    "dropping press of key 0x" ++ Numeral.hex 0 key.toNat ++ ": listener is busy"
  | alreadyRegistered ticket => "listener is already registered as " ++ ticketText ticket
  | notRegistered ticket => "attempted to remove unregistered listener " ++ ticketText ticket

end Entry

end Chip8
