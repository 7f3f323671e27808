import Chip8.Board.Basic

/-!
# Presses

A press of a key that is up takes it down and then tells the listeners, in the order of their
registrations. Whom it tells is settled when it sets out: it takes hold of every listener that is
alive then, and lets go of each after its turn, so that nothing done in between adds to the
audience or takes from it. A listener that is busy at its turn is left out.

What a listener's script does when it hears a key is a parameter, `play`, of everything here.

* `Board.turn`: one listener's turn in a dispatch.
* `Board.dispatch`: all turns, one after the other.
* `Board.press`, `Board.pressBusy`, `Board.release`: the keys themselves.
-/

namespace Chip8.Board

/-- How the script of a listener is played on a board. -/
abbrev Play := Slot → List Action → Board → Board

/-- Lets the device of a slot hear a key. It is busy meanwhile. -/
def deliver (play : Play) (b : Board) (number : Nat) (key : UInt8) (slot : Slot)
    (device : Device) : Board :=
  let heard := (b.tell (.heard number slot key)).setBusy slot true
  let after := match device with
    | .machine m => heard.setMachine slot (m.hear key)
    | .script actions => play slot actions heard
  (after.setBusy slot false).tell (.done number slot)

/-- The turn of one listener: it hears the key, or is left out if it is busy. Either way the
    dispatch then lets go of it. -/
def turn (play : Play) (number : Nat) (key : UInt8) (b : Board) (slot : Slot) : Board :=
  let after := match b.outlet? slot with
    | some o =>
      if o.busy then (b.tell (.skipped number slot key)).report [.pressDropped key]
      else b.deliver play number key slot o.device
    | none => b
  after.letGo slot

/-- Tells every registered listener that is alive of a key. -/
def dispatch (play : Play) (b : Board) (key : UInt8) : Board :=
  let registry := b.registry.prune b.isAlive
  let audience := registry.audience
  let number := b.dispatches
  let begun := { b with registry, dispatches := number + 1 }.tell (.dispatched number key audience)
  let held := audience.foldl hold begun
  (audience.foldl (turn play number key) held).tell (.finished number)

/-- Presses a key. Listeners hear of it only if it was up. -/
def press (play : Play) (b : Board) (key : UInt8) : Board :=
  let b := b.tell (.pressed key)
  if isKey key then
    if b.held.isDown key then b else dispatch play { b with held := b.held.press key } key
  else b.report [.pressIgnored key]

/-- Presses a key while the device of a slot is held on to and busy. -/
def pressBusy (play : Play) (b : Board) (slot : Slot) (key : UInt8) : Board :=
  (((b.hold slot).setBusy slot true).press play key |>.setBusy slot false).letGo slot

/-- Releases a key. -/
def release (b : Board) (key : UInt8) : Board :=
  let b := b.tell (.released key)
  if isKey key then { b with held := b.held.release key } else b.report [.releaseIgnored key]

end Chip8.Board
