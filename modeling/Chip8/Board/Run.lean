import Chip8.Board.Dispatch

/-!
# Runs of actions

The meaning of each action, and of the scripts that listeners play: a script's actions may press
keys, so listeners hear keys while others are still playing. No listener is told twice at the
same time, since one that plays is busy; therefore scripts nest at most as deeply as there are
slots that could be registered.

* `Board.perform`: an action, given how scripts are played.
* `Board.hearing`: how scripts are played, to a given depth.
* `Action.added`, `nesting`: the slots that actions could register, and so the greatest depth.
* `Board.act`, `Board.run`: an action, and a list of actions on a new board.
-/

namespace Chip8

namespace Board

/-- Attaches the machine in a slot, unless it was attached before. -/
def attach (b : Board) (slot : Slot) : Answer × Board :=
  match b.machine? slot with
  | some m =>
    if m.subscription = .never then (.nothing, b.attachMachine slot m)
    else (.refused .cannotAttach, b)
  | none => (.refused .cannotAttach, b)

/-- Uses the machine in a slot, unless there is none or it is busy. -/
def withMachine (b : Board) (slot : Slot) (use : Machine → Answer × Board) : Answer × Board :=
  match b.machine? slot with
  | some m => if b.isBusy slot then (.refused .busy, b) else use m
  | none => (.refused .noSuchSlot, b)

/-- Carries out an operation on the machine in a slot. -/
def operate (b : Board) (slot : Slot) (op : Machine.Op) : Answer × Board :=
  b.withMachine slot fun m =>
    let outcome := m.operate b.held op
    (.gain outcome.result, (b.setMachine slot outcome.machine).report outcome.entries)

/-- Carries out an action, with `play` for the scripts of the listeners that it reaches.

    Actions name a device by the slot that owns it, the registration of a listener among them. A
    slot that was emptied names nothing: a press under way may still hold on to the device that was
    in it, but whoever gave the device up has no name left to register or use it by. -/
def perform (play : Play) (b : Board) : Action → Answer × Board
  | .plugScript script =>
    let (slot, b) := b.plug (.script script)
    (.slot slot, b)
  | .plugMachine source subscribed =>
    let m := Machine.new source
    let (slot, b) := b.plug (.machine m)
    (.slot slot, if subscribed then b.attachMachine slot m else b)
  | .attach slot => b.attach slot
  | .detach slot => b.withMachine slot fun m => (.nothing, b.detachMachine slot m)
  | .operate slot op => b.operate slot op
  | .add slot =>
    if (b.plugged? slot).isSome then
      let (ticket, b) := b.subscribe slot
      (.ticket ticket, b)
    else (.refused .noSuchSlot, b)
  | .remove ticket => (.nothing, b.cancel ticket)
  | .unplug slot => (.nothing, b.unplug slot)
  | .press key => (.nothing, b.press play key)
  | .pressBusy slot key =>
    if (b.plugged? slot).isSome then
      if b.isBusy slot then (.refused .busy, b) else (.nothing, b.pressBusy play slot key)
    else (.refused .noSuchSlot, b)
  | .release key => (.nothing, b.release key)
  | .askKey key => (.truth (b.held.isDown key), b)
  | .askCount => (.count b.listenerCount, b)

/-- Carries out an action of a script and tells of its answer. -/
def performNoted (play : Play) (slot : Slot) (b : Board) (action : Action) : Board :=
  let (answer, after) := b.perform play action
  after.tell (.noted slot action answer)

/-- How scripts are played when they may nest `depth` deep. -/
def hearing : Nat → Play
  | 0, slot, _, b => b.tell (.tooDeep slot)
  | depth + 1, slot, script, b => script.foldl (performNoted (hearing depth) slot) b

end Board

/-! ## The greatest depth -/

mutual

/-- The slots that an action, or a script in it, names to be registered. -/
def Action.added : Action → List Slot
  | .add slot => [slot]
  | .plugScript script => addedByAll script
  | .plugMachine _ _ | .attach _ | .detach _ | .operate _ _ | .remove _ | .unplug _ | .press _
  | .pressBusy _ _ | .release _ | .askKey _ | .askCount => []

/-- The slots that any of several actions names to be registered. -/
def addedByAll : List Action → List Slot
  | [] => []
  | action :: rest => action.added ++ addedByAll rest

end

/-- How deeply scripts can nest while these actions are carried out: there are no more listeners
    with scripts than slots that some action registers. -/
def nesting (actions : List Action) : Nat := (addedByAll actions).eraseDups.length

namespace Board

/-- Carries out an action, scripts nesting `depth` deep at most. -/
def act (depth : Nat) (b : Board) (action : Action) : Answer × Board :=
  b.perform (hearing depth) action

/-- What happened since `earlier`, the earliest first. -/
def eventsSince (b earlier : Board) : List Event :=
  (b.history.take (b.history.length - earlier.history.length)).reverse

/-- What is there after each of several actions: the answer, and the board. -/
def moments (depth : Nat) (b : Board) : List Action → List (Answer × Board)
  | [] => []
  | action :: rest =>
    let moment := b.act depth action
    moment :: moment.2.moments depth rest

/-- The answers to a list of actions on a new board, each with the board after it. -/
def run (pruning : Pruning) (actions : List Action) : List (Answer × Board) :=
  (empty pruning).moments (nesting actions) actions

end Board

end Chip8
