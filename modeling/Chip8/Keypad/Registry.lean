import Chip8.Journal

/-!
# Registrations

The keypad's list of who wants to hear of presses, in the order they asked. A listener is known
by its slot. Registering keeps no listener alive: whether a slot's listener still lives is
somebody else's knowledge, passed in as `alive`, and the registrations of dead listeners stay
on the list until they are pruned.

* `Registry.register`, `Registry.unregister`: a listener asks for a ticket, or gives one back.
* `Registry.prune`: forgets the listeners that are no more.
* `Registry.audience`, `Registry.count`: the listeners there are, and how many.
-/

namespace Chip8

/-- The number of a slot that a listener can be plugged into. -/
abbrev Slot := Nat

/-- A listener and the ticket it holds. -/
structure Registration where
  ticket : Ticket
  slot : Slot
  deriving Repr, DecidableEq

/-- The registrations in the order they were made, and the number of the next ticket. -/
structure Registry where
  entries : List Registration
  next : Nat
  deriving Repr, DecidableEq

namespace Registry

/-- Nobody registered yet. -/
def empty : Registry := ⟨[], 0⟩

/-- The registration of a listener, if it has one. -/
def find? (r : Registry) (slot : Slot) : Option Registration :=
  r.entries.find? fun entry => entry.slot = slot

/-- Registers a listener. One that is registered keeps its ticket. -/
def register (r : Registry) (slot : Slot) : Ticket × Registry × List Entry :=
  match r.find? slot with
  | some entry => (entry.ticket, r, [.alreadyRegistered entry.ticket])
  | none =>
    let ticket : Ticket := ⟨r.next⟩
    (ticket, ⟨r.entries ++ [⟨ticket, slot⟩], r.next + 1⟩, [])

/-- Takes the holder of a ticket off the list. -/
def unregister (r : Registry) (ticket : Ticket) : Registry × List Entry :=
  if r.entries.any fun entry => entry.ticket = ticket then
    ({ r with entries := r.entries.eraseP fun entry => entry.ticket = ticket }, [])
  else (r, [.notRegistered ticket])

/-- Takes every listener off the list that is not alive. -/
def prune (r : Registry) (alive : Slot → Bool) : Registry :=
  { r with entries := r.entries.filter fun entry => alive entry.slot }

/-- Takes one listener off the list, whatever its ticket. -/
def forget (r : Registry) (slot : Slot) : Registry := r.prune (· != slot)

/-- The registered listeners, in the order of their registrations. -/
def audience (r : Registry) : List Slot := r.entries.map (·.slot)

/-- How many registered listeners are alive. -/
def count (r : Registry) (alive : Slot → Bool) : Nat :=
  (r.entries.filter fun entry => alive entry.slot).length

end Registry

end Chip8
