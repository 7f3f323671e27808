import Chip8.Proofs.Evolution

/-!
# Moments of a run

A listener may respond to a key in any way that is made of actions, which may make other listeners
respond in turn: to fixed scripts, and also as what happened so far suggests. Every such response
is a course of actions. The moments of a run are the boards before and after actions, those of
responses included, however deeply they are nested in presses.

* `Board.Course`: what courses of actions lead to.
* `Board.Responsive`: listeners that respond by courses of actions; `responsive_hearing`: those
  that play scripts do.
* `Board.Moment`: the moments of all runs; `moment_of_run`: those of a list of actions are among
  them.
* `Moment.evolves`: every moment comes about by single changes.
-/

namespace Chip8

/-- The remarks that a response leaves about itself. -/
def Event.IsNote : Event → Prop
  | .noted _ _ _ | .tooDeep _ => True
  | _ => False

theorem Event.IsNote.isRemark {event : Event} (h : event.IsNote) : event.IsRemark := by
  cases event with
  | noted slot action answer => trivial
  | tooDeep slot => trivial
  | _ => cases h

theorem Event.IsNote.number?_eq {event : Event} (h : event.IsNote) : event.number? = none := by
  cases event with
  | noted slot action answer => rfl
  | tooDeep slot => rfl
  | _ => cases h

namespace Board

/-- What a course of actions leads to. Meanwhile listeners respond to keys by courses of actions,
    in whatever way. -/
inductive Course : Board → Board → Prop where
  /-- No action is carried out. -/
  | stay (b : Board) : Course b b
  /-- One more action is carried out. -/
  | act {b c : Board} {play : Play} (hplay : ∀ slot script d, Course d (play slot script d))
      (action : Action) (h : Course b c) : Course b (c.perform play action).2
  /-- A note is made. -/
  | note {b c : Board} {event : Event} (hnote : event.IsNote) (h : Course b c) :
      Course b (c.tell event)

/-- Whether listeners respond by courses of actions. -/
def Responsive (play : Play) : Prop := ∀ slot script d, Course d (play slot script d)

variable {b c : Board}

theorem Course.trans {d : Board} (h : Course b c) (h' : Course c d) : Course b d := by
  induction h' with
  | stay c => exact h
  | act hplay action _ _ ih => exact .act hplay action (ih h)
  | note hnote _ ih => exact .note hnote (ih h)

theorem Course.evolves (h : Course b c) : b.Evolves c := by
  induction h with
  | stay b => exact .refl b
  | act hplay action _ ihplay ih => exact ih.trans (.perform ihplay _ action)
  | note hnote _ ih =>
    exact ih.trans (Change.evolves (.tell hnote.isRemark (by simp [hnote.number?_eq])))

theorem Responsive.evolves {play : Play} (h : Responsive play) (slot : Slot)
    (script : List Action) (d : Board) : d.Evolves (play slot script d) :=
  (h slot script d).evolves

/-- The actions of a script that are played so far are a course of actions. -/
theorem Course.foldl_performNoted {play : Play} (hplay : Responsive play) (slot : Slot)
    (script : List Action) (h : Course b c) :
    Course b (script.foldl (performNoted play slot) c) := by
  induction script generalizing c with
  | nil => exact h
  | cons action rest ih => exact ih (.note trivial (.act hplay action h))

/-- Scripts are courses of actions, however deeply they nest. -/
theorem responsive_hearing (depth : ℕ) : Responsive (hearing depth) := by
  induction depth with
  | zero =>
    intro slot script d
    exact .note trivial (.stay d)
  | succ depth ih =>
    intro slot script d
    exact .foldl_performNoted ih slot script (.stay d)

/-- The board after several actions, scripts nesting `depth` deep at most. -/
def after (depth : ℕ) (b : Board) (actions : List Action) : Board :=
  actions.foldl (fun b action => (b.act depth action).2) b

theorem Course.after (b : Board) (depth : ℕ) (actions : List Action) :
    Course b (b.after depth actions) := by
  have extend {c : Board} (h : Course b c) : Course b (c.after depth actions) := by
    induction actions generalizing c with
    | nil => exact h
    | cons action rest ih => exact ih (.act (responsive_hearing depth) action h)
  exact extend (.stay b)

/-- The moments of all runs. -/
inductive Moment : Board → Prop where
  /-- A run begins. -/
  | start (pruning : Pruning) : Moment (empty pruning)
  /-- Some actions later. -/
  | course {b c : Board} (h : Moment b) (hc : Course b c) : Moment c
  /-- A device is held on to and busy, because somebody uses it. -/
  | borrow {b : Board} {slot : Slot} (h : Moment b) (hplugged : (b.plugged? slot).isSome = true)
      (hfree : b.isBusy slot = false) : Moment ((b.hold slot).setBusy slot true)
  /-- A listener begins to respond to the press of a key that was up, after the turns of others. -/
  | response {b : Board} {play : Play} {key : UInt8} {before after : List Slot} {slot : Slot}
      {script : List Action} (h : Moment b) (hplay : Responsive play) (hkey : isKey key = true)
      (hup : b.held.isDown key = false) (haudience : b.audience = before ++ slot :: after)
      (hdevice : (b.atTurn play key before).device? slot = some (.script script))
      (hfree : (b.atTurn play key before).isBusy slot = false) :
      Moment ((b.atTurn play key before).heardBy b.dispatches key slot)

/-- A moment is followed by another with each action. -/
theorem Moment.perform (h : b.Moment) {play : Play} (hplay : Responsive play) (action : Action) :
    (b.perform play action).2.Moment :=
  h.course (.act hplay action (.stay b))

/-- Every moment comes about by single changes. -/
theorem Moment.evolves (h : b.Moment) : ∃ pruning, (empty pruning).Evolves b := by
  induction h with
  | start pruning => exact ⟨pruning, .refl _⟩
  | course _ hc ih =>
    obtain ⟨pruning, evolves⟩ := ih
    exact ⟨pruning, evolves.trans hc.evolves⟩
  | borrow _ hplugged _ ih =>
    obtain ⟨pruning, evolves⟩ := ih
    exact ⟨pruning, (evolves.trans (.hold (isAlive_of_plugged? hplugged))).trans (.setBusy _ _ _)⟩
  | @response b play key before after slot script _ hplay hkey hup _ _ _ ih =>
    obtain ⟨pruning, evolves⟩ := ih
    have told := evolves.trans (Evolves.atTurn hplay.evolves hkey hup before)
    have counted := b.dispatches_lt_atTurn hplay.evolves key before
    exact ⟨pruning, told.trans (.heardBy counted key slot)⟩

/-- What every change keeps, and new boards have, holds at every moment. -/
theorem Moment.invariant {P : Board → Prop} (hstart : ∀ pruning, P (empty pruning))
    (hP : ∀ {b c : Board}, Change b c → P b → P c) (h : b.Moment) : P b := by
  obtain ⟨pruning, evolves⟩ := h.evolves
  exact evolves.invariant hP (hstart pruning)

/-- The boards of a run are moments. -/
theorem moment_of_run (pruning : Pruning) {actions : List Action} {moment : Answer × Board}
    (h : moment ∈ run pruning actions) : moment.2.Moment := by
  have later (depth : ℕ) (rest : List Action) {b : Board} (hb : b.Moment) :
      ∀ moment ∈ b.moments depth rest, moment.2.Moment := by
    induction rest generalizing b with
    | nil =>
      intro moment hmoment
      cases hmoment
    | cons action rest ih =>
      have next : (b.act depth action).2.Moment := hb.perform (responsive_hearing depth) action
      intro moment hmoment
      rcases List.mem_cons.mp hmoment with rfl | hlater
      · exact next
      · exact ih next moment hlater
  exact later _ actions (.start pruning) moment h

end Board

end Chip8
