import Chip8.Keypad.Registry
import Chip8.Machine.Basic

/-!
# The board

A keypad with the devices that are plugged into it. A device is a machine, or a script that is
played whenever its listener hears a key; both hear of presses once they are registered. A slot
owns the device plugged into it. A registration does not, but a press under way holds on to
those it is going to tell, so a device lives as long as it is plugged in or held.

* `Action`: what can be done to a board, and what scripts are made of.
* `Answer`, `Event`: what an action gives back, and what there is to tell of it.
* `Board`: the keys that are down, the registrations, the outlets, and all that happened.
* `Board.hold`, `Board.letGo`, `Board.unplug`: who keeps a device alive, and its end.
* `Board.subscribe`, `Board.cancel`: a listener's coming and going in the registry.
-/

namespace Chip8

/-- What can be done to a board. -/
inductive Action where
  /-- Plugs a listener that plays `script` into a new slot. -/
  | plugScript (script : List Action)
  /-- Plugs a machine into a new slot, subscribed to the keypad or not. -/
  | plugMachine (source : ByteSource) (subscribed : Bool)
  /-- Subscribes a machine that never was. -/
  | attach (slot : Slot)
  /-- Ends the subscription of a machine. -/
  | detach (slot : Slot)
  /-- Carries out an operation on a machine. -/
  | operate (slot : Slot) (op : Machine.Op)
  /-- Registers the device that a slot owns as a listener. -/
  | add (slot : Slot)
  /-- Gives a ticket back. -/
  | remove (ticket : Ticket)
  /-- Empties a slot. -/
  | unplug (slot : Slot)
  /-- Presses a key. -/
  | press (key : UInt8)
  /-- Presses a key while a device is busy. -/
  | pressBusy (slot : Slot) (key : UInt8)
  /-- Releases a key. -/
  | release (key : UInt8)
  /-- Asks whether a key is down. -/
  | askKey (key : UInt8)
  /-- Asks how many listeners there are. -/
  | askCount

/-- Why an action could not be tried. -/
inductive Refusal where
  /-- The slot is empty, or holds no device that could do it. -/
  | noSuchSlot
  /-- The device is busy. -/
  | busy
  /-- There is no machine, or it subscribed before. -/
  | cannotAttach
  deriving Repr, DecidableEq

/-- What an action gives back. -/
inductive Answer where
  | nothing
  | slot (slot : Slot)
  | ticket (ticket : Ticket)
  | truth (holds : Bool)
  | count (listeners : Nat)
  | gain (result : Except Fault Machine.Gain)
  | refused (refusal : Refusal)

/-- What there is to tell of an action. -/
inductive Event where
  /-- A press begins. -/
  | pressed (key : UInt8)
  /-- A release begins. -/
  | released (key : UInt8)
  /-- A press that took a key from up to down sets out to tell its audience. -/
  | dispatched (number : Nat) (key : UInt8) (audience : List Slot)
  /-- A listener hears the key of a dispatch. -/
  | heard (number : Nat) (slot : Slot) (key : UInt8)
  /-- A listener is through with the key of a dispatch. -/
  | done (number : Nat) (slot : Slot)
  /-- A listener is busy at its turn. -/
  | skipped (number : Nat) (slot : Slot) (key : UInt8)
  /-- A dispatch is over. -/
  | finished (number : Nat)
  /-- A script's listener did something, with this answer. -/
  | noted (slot : Slot) (action : Action) (answer : Answer)
  /-- Something went into the journal. -/
  | reported (entry : Entry)
  /-- Scripts were nested more deeply than was allowed for. -/
  | tooDeep (slot : Slot)

/-- What can be plugged in. -/
inductive Device where
  | script (actions : List Action)
  | machine (machine : Machine)

/-- A slot with its device. -/
structure Outlet where
  device : Device
  /-- Whether the slot still owns the device. -/
  plugged : Bool
  /-- How many presses under way hold on to the device. -/
  holds : Nat
  /-- Whether the device is being used at this moment. -/
  busy : Bool

/-- Whether anything keeps the device alive. -/
def Outlet.isAlive (o : Outlet) : Bool := o.plugged || 0 < o.holds

/-- The machine that is plugged in, if it is one. -/
def Outlet.machine? (o : Outlet) : Option Machine :=
  match o.device with
  | .machine m => if o.plugged then some m else none
  | .script _ => none

/-- When the registrations of dead devices are taken off the list. -/
inductive Pruning where
  /-- When the next press sets out. -/
  | atDispatch
  /-- At the moment of death. -/
  | atDeath
  deriving Repr, DecidableEq

/-- A keypad with its devices. -/
structure Board where
  held : HeldKeys
  registry : Registry
  outlets : List Outlet
  pruning : Pruning
  /-- How many dispatches there were. -/
  dispatches : Nat
  /-- All that happened, the latest first. -/
  history : List Event

namespace Board

/-- A keypad without any device. -/
def empty (pruning : Pruning) : Board := ⟨.allUp, .empty, [], pruning, 0, []⟩

/-- The outlet of a slot. -/
def outlet? (b : Board) (slot : Slot) : Option Outlet := b.outlets[slot]?

/-- The device that is or was plugged into a slot. -/
def device? (b : Board) (slot : Slot) : Option Device := (b.outlet? slot).map (·.device)

/-- The outlet of a slot that is not empty. -/
def plugged? (b : Board) (slot : Slot) : Option Outlet := (b.outlet? slot).filter (·.plugged)

/-- The machine in a slot. -/
def machine? (b : Board) (slot : Slot) : Option Machine := (b.outlet? slot).bind (·.machine?)

/-- Whether the device of a slot lives. -/
def isAlive (b : Board) (slot : Slot) : Bool := (b.outlet? slot).any (·.isAlive)

/-- Whether the device of a slot is busy. -/
def isBusy (b : Board) (slot : Slot) : Bool := (b.outlet? slot).any (·.busy)

/-- How many listeners are registered and alive. -/
def listenerCount (b : Board) : Nat := b.registry.count b.isAlive

/-- The board once an event is told. -/
def tell (b : Board) (event : Event) : Board := { b with history := event :: b.history }

/-- The board once entries went into the journal. -/
def report (b : Board) (entries : List Entry) : Board :=
  entries.foldl (fun b entry => b.tell (.reported entry)) b

/-- The board with the outlet of a slot changed. -/
def modify (b : Board) (slot : Slot) (f : Outlet → Outlet) : Board :=
  { b with outlets := b.outlets.modify slot f }

/-- The board with another machine in a slot. -/
def setMachine (b : Board) (slot : Slot) (m : Machine) : Board :=
  b.modify slot fun o => { o with device := .machine m }

/-- The board with the device of a slot busy or not. -/
def setBusy (b : Board) (slot : Slot) (busy : Bool) : Board :=
  b.modify slot fun o => { o with busy }

/-- Plugs a device into a new slot. -/
def plug (b : Board) (device : Device) : Slot × Board :=
  (b.outlets.length, { b with outlets := b.outlets ++ [⟨device, true, 0, false⟩] })

/-! ## Registrations -/

/-- Registers the device of a slot. -/
def subscribe (b : Board) (slot : Slot) : Ticket × Board :=
  let (ticket, registry, entries) := b.registry.register slot
  (ticket, { b with registry }.report entries)

/-- Gives a ticket back. -/
def cancel (b : Board) (ticket : Ticket) : Board :=
  let (registry, entries) := b.registry.unregister ticket
  { b with registry }.report entries

/-- Subscribes the machine in a slot, which remembers its ticket. -/
def attachMachine (b : Board) (slot : Slot) (m : Machine) : Board :=
  let (ticket, subscribed) := b.subscribe slot
  subscribed.setMachine slot { m with subscription := .active ticket }

/-- Ends the subscription of the machine in a slot, if it has one. -/
def detachMachine (b : Board) (slot : Slot) (m : Machine) : Board :=
  match m.subscription with
  | .active ticket => (b.setMachine slot { m with subscription := .ended }).cancel ticket
  | .never | .ended => b

/-! ## Life and death -/

/-- What the death of a device brings about: a machine ends its subscription. Nothing happens
    while the device is alive. -/
def settle (b : Board) (slot : Slot) : Board :=
  if b.isAlive slot then b
  else
    let b := match b.pruning with
      | .atDispatch => b
      | .atDeath => { b with registry := b.registry.forget slot }
    match b.device? slot with
    | some (.machine m) => b.detachMachine slot m
    | some (.script _) => b
    | none => b

/-- Takes hold of a device. -/
def hold (b : Board) (slot : Slot) : Board := b.modify slot fun o => { o with holds := o.holds + 1 }

/-- Lets go of a device. -/
def letGo (b : Board) (slot : Slot) : Board :=
  (b.modify slot fun o => { o with holds := o.holds - 1 }).settle slot

/-- Empties a slot. -/
def unplug (b : Board) (slot : Slot) : Board :=
  (b.modify slot fun o => { o with plugged := false }).settle slot

end Board

end Chip8
