import Chip8.Proofs.Snapshot

/-!
# The parts of an action

A press sets out, takes hold of its audience, lets one listener after the other hear the key and
lets go of it again. A relation between boards that holds of all these parts, and of what is
composed of parts of which it holds, therefore holds of whole actions, if only it holds of the calls
of scripts. And an action does the same for two ways of playing scripts that agree wherever a script
is really played.

* `Board.Plays`, `Board.pressing?`: where scripts are played in the course of an action.
* `Board.Composed`: relations that hold of the parts of an action.
* `Composed.atTurn`, `Composed.press`, `Composed.perform`: they hold of the actions themselves.
* `perform_congr`: what an action does depends on the scripts that are played only.
-/

namespace Chip8

/-- Events that are told in passing: nobody is called or asked to hear a key, and no script is cut
    short. -/
def Event.IsAside : Event → Prop
  | .pressed _ | .released _ | .skipped _ _ _ | .finished _ | .noted _ _ _ | .reported _ => True
  | .dispatched _ _ _ | .heard _ _ _ | .done _ _ | .tooDeep _ => False

namespace Board

/-! ## Where scripts are played -/

/-- The board when a listener begins to respond to the press of a key that was up. -/
def atResponse (b : Board) (play : Play) (key : UInt8) (before : List Slot) (slot : Slot) : Board :=
  (b.atTurn play key before).heardBy b.dispatches key slot

/-- In the dispatch that starts on a board, a script is played after the turns of some other
    listeners. -/
structure Plays (b : Board) (play : Play) (key : UInt8) (before : List Slot) (slot : Slot)
    (script : List Action) : Prop where
  isKey : isKey key = true
  isUp : b.held.isDown key = false
  audience : ∃ after, b.audience = before ++ slot :: after
  device : (b.atTurn play key before).device? slot = some (.script script)
  free : (b.atTurn play key before).isBusy slot = false

/-- The key that an action presses, and the board on which it does. -/
def pressing? (b : Board) : Action → Option (Board × UInt8)
  | .press key => some (b, key)
  | .pressBusy slot key =>
    if (b.plugged? slot).isSome ∧ b.isBusy slot = false then
      some ((b.hold slot).setBusy slot true, key)
    else none
  | .plugScript _ | .plugMachine _ _ | .attach _ | .detach _ | .operate _ _ | .add _ | .remove _
  | .unplug _ | .release _ | .askKey _ | .askCount => none

/-- The board when a script in the audience of a press was called and is through with it. -/
def afterCall (b : Board) (play : Play) (key : UInt8) (before : List Slot) (slot : Slot)
    (script : List Action) : Board :=
  (b.atTurn play key before).deliver play b.dispatches key slot (.script script)

/-- A relation between the boards before and after that holds of the parts of an action, and of
    what is composed of them, scripts left out. -/
structure Composed (Allowed : Board → Action → Prop) (R : Board → Board → Prop) : Prop where
  refl (b : Board) : R b b
  trans {b c d : Board} (h : R b c) (h' : R c d) : R b d
  /-- An action may neither press nor release a key. -/
  quiet (play : Play) {b : Board} {action : Action} (h : action.IsQuiet)
    (hallowed : Allowed b action) : R b (b.perform play action).2
  tell (b : Board) (event : Event) (h : event.IsAside) : R b (b.tell event)
  release (b : Board) (key : UInt8) : R b (b.release key)
  setOut (b : Board) (key : UInt8) : R b (b.setOut key)
  hold {b : Board} {slot : Slot} (h : b.isAlive slot = true) : R b (b.hold slot)
  letGo (b : Board) (slot : Slot) : R b (b.letGo slot)
  /-- A machine may hear a key. -/
  hear (play : Play) {b : Board} {slot : Slot} {m : Machine} (number : ℕ) (key : UInt8)
    (h : b.device? slot = some (.machine m)) (hfree : b.isBusy slot = false) :
    R b (b.deliver play number key slot (.machine m))
  /-- A device may be used in between. -/
  borrow {b c : Board} {slot : Slot} (hfree : b.isBusy slot = false)
    (h : R (b.setBusy slot true) c) : R b (c.setBusy slot false)

variable {Allowed : Board → Action → Prop} {R : Board → Board → Prop} {play : Play} {key : UInt8}
  {before after : List Slot} {slot : Slot} {b : Board}

namespace Composed

variable (hR : Composed Allowed R)

include hR

theorem report (b : Board) (entries : List Entry) : R b (b.report entries) :=
  related_report hR.refl hR.trans (fun b entry => hR.tell b (.reported entry) trivial) b entries

theorem underWay (b : Board) (key : UInt8) : R b (b.underWay key) := by
  have alive : ∀ slot ∈ b.audience, (b.setOut key).isAlive slot = true := by
    intro slot hslot
    have before : b.isAlive slot = true := isAlive_of_mem_audience hslot
    exact before
  exact hR.trans (hR.setOut b key) (related_foldl_hold hR.refl hR.trans hR.hold alive)

/-- One more turn in the dispatch that starts on a board. Nothing is asked of scripts but of the one
    that is called in this turn. -/
theorem turn
    (hcalls : ∀ script, b.Plays play key before slot script →
      R (b.atTurn play key before) (b.afterCall play key before slot script))
    (hkey : isKey key = true) (hup : b.held.isDown key = false)
    (haudience : ∃ after, b.audience = before ++ slot :: after) :
    R (b.atTurn play key before) (b.atTurn play key (before ++ [slot])) := by
  rw [atTurn_append]
  cases hdevice : (b.atTurn play key before).device? slot with
  | none =>
    rw [turn_of_none (Option.map_eq_none_iff.mp hdevice)]
    exact hR.letGo _ slot
  | some device =>
    cases busy : (b.atTurn play key before).isBusy slot with
    | true =>
      rw [turn_of_busy busy]
      have told := hR.tell (b.atTurn play key before) (.skipped b.dispatches slot key) trivial
      exact hR.trans (hR.trans told (hR.report _ _)) (hR.letGo _ slot)
    | false =>
      rw [turn_of_free hdevice busy]
      refine hR.trans ?_ (hR.letGo _ slot)
      cases device with
      | machine m => exact hR.hear play b.dispatches key hdevice busy
      | script script => exact hcalls script ⟨hkey, hup, haudience, hdevice, busy⟩

/-- Some turns of the dispatch that starts on a board. -/
theorem atTurn
    (hcalls : ∀ earlier other script, earlier ++ [other] <+: before →
      b.Plays play key earlier other script →
        R (b.atTurn play key earlier) (b.afterCall play key earlier other script))
    (hkey : isKey key = true) (hup : b.held.isDown key = false) (hbefore : before <+: b.audience) :
    R b (b.atTurn play key before) := by
  -- The last turn begins on the board that the others left, so it is taken off first.
  induction before using List.reverseRecOn with
  | nil => exact hR.underWay b key
  | append_singleton before slot ih =>
    obtain ⟨after, haudience⟩ := hbefore
    rw [List.append_assoc, List.singleton_append] at haudience
    have first : before <+: before ++ [slot] := List.prefix_append _ _
    have earlier := ih (fun other later script hturn => hcalls other later script
      (hturn.trans first)) (haudience ▸ List.prefix_append _ _)
    exact hR.trans earlier (hR.turn (fun script => hcalls before slot script List.prefix_rfl) hkey
      hup ⟨after, haudience.symm⟩)

theorem press (hcalls : ∀ before slot script, b.Plays play key before slot script →
      R (b.atTurn play key before) (b.afterCall play key before slot script)) :
    R b (b.press play key) := by
  cases hkey : isKey key with
  | false =>
    rw [press_of_not_isKey hkey]
    exact hR.trans (hR.tell b (.pressed key) trivial) (hR.report _ _)
  | true =>
    cases hheld : b.held.isDown key with
    | true =>
      rw [press_of_down hkey hheld]
      exact hR.tell b (.pressed key) trivial
    | false =>
      rw [press_of_up hkey hheld]
      have turns := hR.atTurn (fun before slot script _ => hcalls before slot script) hkey hheld
        List.prefix_rfl
      exact hR.trans turns (hR.tell _ (.finished b.dispatches) trivial)

theorem pressBusy (hplugged : (b.plugged? slot).isSome = true) (hfree : b.isBusy slot = false)
    (hcalls : ∀ before other script,
      ((b.hold slot).setBusy slot true).Plays play key before other script →
        R (((b.hold slot).setBusy slot true).atTurn play key before)
          (((b.hold slot).setBusy slot true).afterCall play key before other script)) :
    R b (b.pressBusy play slot key) := by
  have free : (b.hold slot).isBusy slot = false := (b.isBusy_foldl_hold [slot] slot).trans hfree
  have used := hR.borrow free (hR.press hcalls)
  unfold Board.pressBusy
  exact hR.trans (hR.hold (isAlive_of_plugged? hplugged)) (hR.trans used (hR.letGo _ slot))

/-- An action that is allowed, if the relation holds of the calls of scripts meanwhile. -/
theorem perform {action : Action} (hallowed : Allowed b action)
    (hcalls : ∀ d key, b.pressing? action = some (d, key) → ∀ before slot script,
      d.Plays play key before slot script →
        R (d.atTurn play key before) (d.afterCall play key before slot script)) :
    R b (b.perform play action).2 := by
  cases action with
  | press key => exact hR.press (hcalls b key rfl)
  | pressBusy slot key =>
    simp only [Board.perform]
    split
    · next hplugged =>
      split
      · exact hR.refl b
      · next busy =>
        have hfree := Bool.eq_false_iff.mpr busy
        exact hR.pressBusy hplugged hfree (hcalls _ key (if_pos ⟨hplugged, hfree⟩))
    · exact hR.refl b
  | release key => exact hR.release b key
  | _ =>
    refine hR.quiet play ?_ hallowed
    trivial

end Composed

/-! ## Devices meanwhile -/

/-- What lasts holds in the middle of a dispatch. -/
theorem Every.atTurn {Admitted : Action → Prop} {P : Device → Prop} (h : b.Every P)
    (hP : Device.Lasting Admitted P) (depth : ℕ) (key : UInt8) (before : List Slot) :
    (b.atTurn (Board.hearing depth) key before).Every P :=
  Every.foldl_turn hP (Every.hearing hP depth) (Every.foldl_hold (b := b.setOut key) h b.audience)
    b.dispatches key before

theorem Every.pressing {P : Device → Prop} (h : b.Every P) {action : Action} {d : Board}
    (hpress : b.pressing? action = some (d, key)) : d.Every P := by
  cases action with
  | press key =>
    cases hpress
    exact h
  | pressBusy slot key =>
    simp only [pressing?] at hpress
    split at hpress
    · cases hpress
      exact h.hold.setBusy true
    · cases hpress
  | _ => cases hpress

/-- So it does when a script is called, and it holds of the script. -/
theorem Every.response {Admitted : Action → Prop} {P : Device → Prop} (h : b.Every P)
    (hP : Device.Lasting Admitted P) {depth : ℕ} {script : List Action}
    (played : b.Plays (Board.hearing depth) key before slot script) :
    (b.atResponse (Board.hearing depth) key before slot).Every P ∧ P (.script script) := by
  have turns := h.atTurn hP depth key before
  exact ⟨Every.setBusy (b := Board.tell _ _) turns true, turns.device? played.device⟩

/-! ## Ways of playing scripts that agree -/

section Congruence

variable {play' : Play}

theorem turn_congr {number : ℕ} (h : ∀ script, b.device? slot = some (.script script) →
      b.isBusy slot = false →
        play' slot script (b.heardBy number key slot) =
          play slot script (b.heardBy number key slot)) :
    turn play' number key b slot = turn play number key b slot := by
  cases hdevice : b.device? slot with
  | none =>
    have none : b.outlet? slot = none := Option.map_eq_none_iff.mp hdevice
    rw [turn_of_none none, turn_of_none none]
  | some device =>
    cases busy : b.isBusy slot with
    | true => rw [turn_of_busy busy, turn_of_busy busy]
    | false =>
      rw [turn_of_free hdevice busy, turn_of_free hdevice busy, deliver_eq, deliver_eq]
      cases device with
      | machine m => rfl
      | script script => rw [respond, h script hdevice busy, respond]

theorem atTurn_congr (hsame : ∀ earlier other script, b.Plays play key earlier other script →
      play' other script (b.atResponse play key earlier other) =
        play other script (b.atResponse play key earlier other))
    (hkey : isKey key = true) (hup : b.held.isDown key = false) (hbefore : before <+: b.audience) :
    b.atTurn play' key before = b.atTurn play key before := by
  induction before using List.reverseRecOn with
  | nil => rfl
  | append_singleton before slot ih =>
    obtain ⟨after, haudience⟩ := hbefore
    rw [List.append_assoc, List.singleton_append] at haudience
    rw [atTurn_append, atTurn_append, ih (haudience ▸ List.prefix_append _ _)]
    exact turn_congr fun script hdevice hfree =>
      hsame before slot script ⟨hkey, hup, ⟨after, haudience.symm⟩, hdevice, hfree⟩

theorem press_congr (hsame : ∀ before slot script, b.Plays play key before slot script →
      play' slot script (b.atResponse play key before slot) =
        play slot script (b.atResponse play key before slot)) :
    b.press play' key = b.press play key := by
  cases hkey : isKey key with
  | false => rw [press_of_not_isKey hkey, press_of_not_isKey hkey]
  | true =>
    cases hheld : b.held.isDown key with
    | true => rw [press_of_down hkey hheld, press_of_down hkey hheld]
    | false =>
      rw [press_of_up hkey hheld, press_of_up hkey hheld,
        atTurn_congr hsame hkey hheld List.prefix_rfl]

/-- An action does the same if scripts that are played meanwhile do the same. -/
theorem perform_congr {action : Action}
    (hsame : ∀ d key, b.pressing? action = some (d, key) → ∀ before slot script,
      d.Plays play key before slot script →
        play' slot script (d.atResponse play key before slot) =
          play slot script (d.atResponse play key before slot)) :
    b.perform play' action = b.perform play action := by
  cases action with
  | press key => exact congrArg (Prod.mk Answer.nothing) (press_congr (hsame b key rfl))
  | pressBusy slot key =>
    simp only [Board.perform]
    split
    · next hplugged =>
      split
      · rfl
      · next busy =>
        have there : b.pressing? (.pressBusy slot key) =
            some ((b.hold slot).setBusy slot true, key) :=
          if_pos ⟨hplugged, Bool.eq_false_iff.mpr busy⟩
        unfold pressBusy
        rw [press_congr (hsame _ key there)]
    · rfl
  | _ => rfl

end Congruence

end Board

end Chip8
