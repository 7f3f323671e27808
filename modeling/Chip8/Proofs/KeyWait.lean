import Chip8.Proofs.Bystanders
import Chip8.Proofs.Faults
import Chip8.Proofs.Moments
import Chip8.Proofs.Trace

/-!
# Waiting for a key

A program that waits for a key stands still, though its timers go on and its screen can be shown.
The first press that takes a key from up to down ends the wait, and the number of that key is what
the program gets; no press before it counts, nor any after it, until the program waits again.

* `State.lapse`: a state when some time has passed.
* `Machine.operate_of_waiting`: the operations that a waiting machine stands still at.
* `Board.Attends`: a machine that is registered on a keypad and not in use.
* `Board.IdleRun`, `Attends.idleRun`: what can happen without ending the wait, and that it does not.
* `Board.UnaskedRun`, `Proceeds.after`: what can happen until the program waits again.
* `Board.Trims`, `Trims.after_eq`: steps of machines that wait can be left out of any run.
* `key_wait`: the main theorem.
-/

namespace Chip8

/-! ## Machines that wait -/

/-- A timer after some ticks. -/
def State.countedDown (timer : UInt8) (ticks : ℕ) : UInt8 := .ofNat (timer.toNat - ticks)

/-- A state after some ticks, whose screen was taken meanwhile or was not. -/
def State.lapse (s : State) (ticks : ℕ) (taken : Bool) : State :=
  { s with
    delay := State.countedDown s.delay ticks
    sound := State.countedDown s.sound ticks
    redraw := s.redraw && !taken }

namespace State

theorem toNat_countedDown (timer : UInt8) (ticks : ℕ) :
    (countedDown timer ticks).toNat = timer.toNat - ticks := by
  have lt := timer.toNat_lt
  unfold countedDown
  rw [UInt8.toNat_ofNat']
  exact Nat.mod_eq_of_lt (by omega)

@[simp] theorem countedDown_zero (timer : UInt8) : countedDown timer 0 = timer :=
  UInt8.toNat_inj.mp (toNat_countedDown timer 0)

@[simp] theorem countDown_countedDown (timer : UInt8) (ticks : ℕ) :
    countDown (countedDown timer ticks) = countedDown timer (ticks + 1) := by
  apply UInt8.toNat_inj.mp
  rw [toNat_countDown, toNat_countedDown, toNat_countedDown]
  omega

@[simp] theorem lapse_zero (s : State) : s.lapse 0 false = s := by simp [lapse]

theorem tick_lapse (s : State) (ticks : ℕ) (taken : Bool) :
    (s.lapse ticks taken).tick = s.lapse (ticks + 1) taken := by
  simp [lapse, tick]

end State

/-- A machine after some ticks, whose screen was taken meanwhile or was not. -/
def Machine.lapse (m : Machine) (ticks : ℕ) (taken : Bool) : Machine :=
  { m with state := m.state.lapse ticks taken }

/-- The operations that do not end a wait. -/
def Machine.Op.IsIdle : Machine.Op → Prop
  | .step | .execute _ | .tick | .takeFrame => True
  | .load _ | .read _ | .hear _ | .reset => False

/-- Whether a machine's timers tick. -/
def Machine.Op.isTick : Machine.Op → Bool
  | .tick => true
  | _ => false

/-- Whether a machine's screen is taken. -/
def Machine.Op.isTake : Machine.Op → Bool
  | .takeFrame => true
  | _ => false

namespace Machine

variable {m : Machine} {held : HeldKeys} {op : Op} {x : Register}

theorem lapse_zero (m : Machine) : m.lapse 0 false = m := by
  unfold lapse
  rw [State.lapse_zero]

theorem isWaiting_of_awaiting (h : m.state.awaiting = some x) : m.state.isWaiting = true := by
  unfold State.isWaiting
  rw [h, Option.isSome_some]

theorem takeFrame_lapse (m : Machine) (ticks : ℕ) (taken : Bool) :
    (m.lapse ticks taken).takeFrame.2 = m.lapse ticks true := by
  unfold takeFrame
  split
  · simp [lapse, State.lapse]
  · next h =>
    have shown : (m.state.redraw && !taken) = false := Bool.eq_false_iff.mpr h
    simp [lapse, State.lapse, shown]

/-- A machine that waits stands still. -/
theorem operate_of_waiting (hwait : m.state.awaiting = some x) (hop : op.IsIdle) (ticks : ℕ)
    (taken : Bool) :
    ((m.lapse ticks taken).operate held op).machine =
      m.lapse (ticks + op.isTick.toNat) (taken || op.isTake) := by
  have waits : (m.lapse ticks taken).state.isWaiting = true := isWaiting_of_awaiting hwait
  cases op with
  | step =>
    have still : (m.lapse ticks taken).step held = ⟨.ok (), m.lapse ticks taken, []⟩ :=
      step_of_waiting waits
    simp [operate, Outcome.map, still, Op.isTick, Op.isTake]
  | execute w =>
    have still : (m.lapse ticks taken).execute held w =
        ⟨.error .blocked, m.lapse ticks taken, []⟩ :=
      execute_of_waiting waits
    simp [operate, Outcome.map, still, Op.isTick, Op.isTake]
  | tick =>
    simp only [operate, tick, Op.isTick, Op.isTake, Bool.or_false, Bool.toNat_true]
    unfold lapse
    rw [State.tick_lapse]
  | takeFrame => simpa [operate, Op.isTick, Op.isTake] using m.takeFrame_lapse ticks taken
  | load image => exact hop.elim
  | read outcomes => exact hop.elim
  | hear key => exact hop.elim
  | reset => exact hop.elim

/-- The instruction that waits for a key makes the machine wait. -/
theorem awaiting_of_instruction? (h : m.instruction? held op = some (.awaitKey x)) :
    (m.operate held op).machine.state.awaiting = some x := by
  obtain ⟨pc, calls, after⟩ := exists_of_instruction? h
  rw [after]
  exact State.awaiting_effect _ _ _

/-- No other operation does. -/
theorem awaiting_operate (hfree : m.state.awaiting = none)
    (h : ∀ x, m.instruction? held op ≠ some (.awaitKey x)) :
    (m.operate held op).machine.state.awaiting = none := by
  cases hi : m.instruction? held op with
  | some instruction =>
    obtain ⟨pc, calls, after⟩ := exists_of_instruction? hi
    have effect := State.awaiting_effect m.state m.source.peek instruction
    rw [after]
    cases instruction with
    | awaitKey x => exact absurd hi (h x)
    | _ => exact effect.trans hfree
  | none =>
    cases op with
    | execute w =>
      exact (congrArg (·.state.awaiting) (machine_execute_of_not_executed hi)).trans hfree
    | step =>
      exact (congrArg (·.state.awaiting) (machine_step_of_no_instruction hi)).trans hfree
    | load image => exact hfree
    | read outcomes =>
      simp only [operate, Outcome.map, read]
      split
      · exact hfree
      · exact hfree
    | tick => exact hfree
    | hear key =>
      exact (congrArg State.awaiting (State.hear_of_awaiting_none hfree key)).trans hfree
    | reset => rfl
    | takeFrame =>
      simp only [operate, takeFrame]
      split
      · exact hfree
      · exact hfree

end Machine

/-! ## What can happen meanwhile -/

/-- Whether an action lets the timers of a machine tick. -/
def Action.isTick : Action → Bool
  | .operate _ op => op.isTick
  | _ => false

/-- Whether an action takes the screen of a machine. -/
def Action.isTake : Action → Bool
  | .operate _ op => op.isTake
  | _ => false

namespace Board

/-- A machine is registered and not in use. -/
structure Attends (b : Board) (slot : Slot) (m : Machine) : Prop where
  rests : b.Rests slot m
  registered : slot ∈ b.registry.audience

/-- The actions that do not end the wait of the machine in a slot: it is operated, without being
    loaded or reset; keys are released; and keys are pressed that are down, or bytes that are no
    keys. -/
def Idle (b : Board) (slot : Slot) : Action → Prop
  | .operate other op => other = slot ∧ op.IsIdle
  | .release _ => True
  | .press key => isKey key = true → b.held.isDown key = true
  | .plugScript _ | .plugMachine _ _ | .attach _ | .detach _ | .add _ | .remove _ | .unplug _
  | .pressBusy _ _ | .askKey _ | .askCount => False

/-- Runs of such actions. -/
def IdleRun (depth : ℕ) (slot : Slot) : Board → List Action → Prop
  | _, [] => True
  | b, action :: rest => b.Idle slot action ∧ IdleRun depth slot (b.act depth action).2 rest

variable {depth ticks : ℕ} {taken : Bool} {b : Board} {slot : Slot} {m : Machine} {x : Register}
  {op : Machine.Op} {action : Action} {actions : List Action}

theorem after_cons (depth : ℕ) (b : Board) (action : Action) (rest : List Action) :
    b.after depth (action :: rest) = (b.act depth action).2.after depth rest := rfl

theorem Rests.operate_eq (h : b.Rests slot m) (depth : ℕ) (op : Machine.Op) :
    b.act depth (.operate slot op) = (.gain (m.operate b.held op).result,
      (b.setMachine slot (m.operate b.held op).machine).report (m.operate b.held op).entries) := by
  simp only [act, Board.perform, Board.operate, withMachine, h.machine, h.free,
    Bool.false_eq_true, ↓reduceIte]

/-- Operating the machine leaves it where it is. -/
theorem Attends.operate (h : b.Attends slot m) (depth : ℕ) (op : Machine.Op) :
    (b.act depth (.operate slot op)).2.Attends slot (m.operate b.held op).machine := by
  rw [h.rests.operate_eq]
  refine ⟨(h.rests.setMachine _).report _, ?_⟩
  rw [registry_report]
  exact h.registered

/-- A press that takes no key down leaves the machine where it is. -/
theorem Attends.press_of_not_up (h : b.Attends slot m) (depth : ℕ) {key : UInt8}
    (hdown : isKey key = true → b.held.isDown key = true) :
    (b.act depth (.press key)).2.Attends slot m := by
  refine ⟨h.rests.press_of_not_up _ hdown, ?_⟩
  change slot ∈ (b.press (hearing depth) key).registry.audience
  cases hkey : isKey key with
  | false =>
    rw [press_of_not_isKey hkey, registry_report]
    exact h.registered
  | true =>
    rw [press_of_down hkey (hdown hkey)]
    exact h.registered

theorem Attends.release (h : b.Attends slot m) (depth : ℕ) (key : UInt8) :
    (b.act depth (.release key)).2.Attends slot m := by
  refine ⟨h.rests.release key, ?_⟩
  change slot ∈ (b.release key).registry.audience
  unfold Board.release
  simp only
  split
  · exact h.registered
  · rw [registry_report]
    exact h.registered

/-- An idle action leaves a waiting machine as it is, apart from its timers and the mark on its
    screen. -/
theorem Attends.idle (hwait : m.state.awaiting = some x) (h : b.Attends slot (m.lapse ticks taken))
    (hidle : b.Idle slot action) : (b.act depth action).2.Attends slot
      (m.lapse (ticks + action.isTick.toNat) (taken || action.isTake)) := by
  cases action with
  | operate other op =>
    obtain ⟨rfl, hop⟩ := hidle
    have operated := h.operate depth op
    rw [Machine.operate_of_waiting hwait hop] at operated
    exact operated
  | release key =>
    simp only [Action.isTick, Action.isTake, Bool.toNat_false, Nat.add_zero, Bool.or_false]
    exact h.release depth key
  | press key =>
    simp only [Action.isTick, Action.isTake, Bool.toNat_false, Nat.add_zero, Bool.or_false]
    exact h.press_of_not_up depth hidle
  | _ => exact hidle.elim

/-- So does a run of them. -/
theorem Attends.idleRun (hwait : m.state.awaiting = some x)
    (h : b.Attends slot (m.lapse ticks taken)) (hidle : b.IdleRun depth slot actions) :
    (b.after depth actions).Attends slot
      (m.lapse (ticks + actions.countP (·.isTick)) (taken || actions.any (·.isTake))) := by
  induction actions generalizing b ticks taken with
  | nil => simpa [after] using h
  | cons action rest ih =>
    obtain ⟨hfirst, hrest⟩ := hidle
    have later := ih (h.idle hwait hfirst) hrest
    have count : ticks + (action :: rest).countP (·.isTick) =
        ticks + action.isTick.toNat + rest.countP (·.isTick) := by
      rw [List.countP_cons]
      cases action.isTick with
      | true => simp; omega
      | false => simp
    rw [after_cons, count, List.any_cons, ← Bool.or_assoc]
    exact later

/-- The keys that are down after an idle run: those that were and were not released. -/
theorem isDown_idleRun (hidle : b.IdleRun depth slot actions) (key : UInt8) :
    (b.after depth actions).held.isDown key = true ↔
      b.held.isDown key = true ∧ .release key ∉ actions := by
  induction actions generalizing b with
  | nil => simp [after]
  | cons action rest ih =>
    obtain ⟨hfirst, hrest⟩ := hidle
    rw [after_cons, ih hrest]
    cases action with
    | operate other op =>
      have quiet : Quiet b (b.act depth (.operate other op)).2 := by
        refine Quiet.perform ?_ b
        trivial
      rw [quiet.held]
      simp
    | press pressed =>
      have quiet : Quiet b (b.act depth (.press pressed)).2 := quiet_press_of_not_up hfirst
      rw [quiet.held]
      simp
    | release released =>
      have keys : (b.act depth (.release released)).2.held = b.held.release released :=
        held_release b released
      rw [keys, HeldKeys.isDown_release]
      simp only [Bool.and_eq_true, bne_iff_ne, List.mem_cons, Action.release.injEq, not_or]
      constructor
      · rintro ⟨⟨hne, down⟩, hmem⟩
        exact ⟨down, fun same => hne same.symm, hmem⟩
      · rintro ⟨down, hne, hmem⟩
        exact ⟨⟨fun same => hne same.symm, down⟩, hmem⟩
    | _ => exact hfirst.elim

theorem Idle.plugs (h : b.Idle slot action) (p : Action → Prop) : action.Plugs p := by
  cases action with
  | plugScript script => exact h.elim
  | _ => trivial

/-- An idle run plugs no listener in. -/
theorem Every.idleRun {p : Action → Prop} (h : b.Every (Device.Plays p))
    (hidle : b.IdleRun depth slot actions) : (b.after depth actions).Every (Device.Plays p) := by
  induction actions generalizing b with
  | nil => exact h
  | cons action rest ih =>
    obtain ⟨hfirst, hrest⟩ := hidle
    exact ih (h.act (Device.lasting_plays p) depth (hfirst.plugs p)) hrest

/-! ## Until the program waits again -/

/-- The actions that do not make the machine in a slot wait: operations on it that do not perform
    the instruction that waits for a key, presses, and what leaves the machine alone. -/
def Unasked (b : Board) (slot : Slot) (action : Action) : Prop :=
  (∃ key, action = .press key) ∨
    (∃ op, action = .operate slot op ∧ ∀ m, b.machine? slot = some m →
      ∀ x, m.instruction? b.held op ≠ some (.awaitKey x)) ∨
    action.Throughout (Action.Spares slot)

/-- Runs of such actions. -/
def UnaskedRun (depth : ℕ) (slot : Slot) : Board → List Action → Prop
  | _, [] => True
  | b, action :: rest => b.Unasked slot action ∧ UnaskedRun depth slot (b.act depth action).2 rest

/-- A machine does not wait and is not in use, and the other listeners leave it alone. -/
structure Proceeds (b : Board) (slot : Slot) (m : Machine) : Prop where
  rests : b.Rests slot m
  unasked : m.state.awaiting = none
  spared : b.Every (Device.Plays (Action.Spares slot))

/-- A press does nothing to a machine that does not wait. -/
theorem Proceeds.press (h : b.Proceeds slot m) (depth : ℕ) (key : UInt8) :
    (b.act depth (.press key)).2.Rests slot m := by
  by_cases hkey : isKey key = true ∧ b.held.isDown key = false
  · have pressed := h.rests.press h.spared depth hkey.1 hkey.2
    have deaf : m.hear key = m := by
      unfold Machine.hear
      rw [State.hear_of_awaiting_none h.unasked]
    rw [deaf, ite_self] at pressed
    exact pressed
  · refine h.rests.press_of_not_up _ fun key_in => ?_
    simpa [key_in] using hkey

theorem Proceeds.act (h : b.Proceeds slot m) (depth : ℕ) (hunasked : b.Unasked slot action) :
    ∃ m', (b.act depth action).2.Proceeds slot m' := by
  rcases hunasked with ⟨key, rfl⟩ | ⟨op, rfl, hop⟩ | hspares
  · have spared : (b.act depth (.press key)).2.Every (Device.Plays (Action.Spares slot)) :=
    h.spared.act (Device.lasting_plays (Action.Spares slot)) depth trivial
    exact ⟨m, h.press depth key, h.unasked, spared⟩
  · have spared : (b.act depth (.operate slot op)).2.Every (Device.Plays (Action.Spares slot)) :=
    h.spared.act (Device.lasting_plays (Action.Spares slot)) depth trivial
    refine ⟨(m.operate b.held op).machine, ?_,
      Machine.awaiting_operate h.unasked (hop m h.rests.machine), spared⟩
    rw [h.rests.operate_eq]
    exact (h.rests.setMachine _).report _
  · have spared := h.spared.act (Device.lasting_plays (Action.Spares slot)) depth hspares.plugs
    exact ⟨m, h.rests.perform hspares.self, h.unasked, spared⟩

theorem Proceeds.after (h : b.Proceeds slot m) (hunasked : b.UnaskedRun depth slot actions) :
    ∃ m', (b.after depth actions).Proceeds slot m' := by
  induction actions generalizing b m with
  | nil => exact ⟨m, h⟩
  | cons action rest ih =>
    obtain ⟨hfirst, hrest⟩ := hunasked
    obtain ⟨m', next⟩ := h.act depth hfirst
    exact ih next hrest

/-! ## Steps of machines that wait -/

/-- Some steps of a run are left out, each of them a step of a machine that waits. -/
inductive Trims (depth : ℕ) (slot : Slot) : Board → List Action → List Action → Prop where
  | nil (b : Board) : Trims depth slot b [] []
  /-- An action is kept. -/
  | keep {b : Board} (action : Action) {run trimmed : List Action}
      (h : Trims depth slot (b.act depth action).2 run trimmed) :
      Trims depth slot b (action :: run) (action :: trimmed)
  /-- A step of a machine that waits is left out. -/
  | drop {b : Board} {m : Machine} {run trimmed : List Action} (hm : b.machine? slot = some m)
      (hwait : m.state.isWaiting = true) (h : Trims depth slot b run trimmed) :
      Trims depth slot b (.operate slot .step :: run) trimmed

/-- A step of a machine that waits changes nothing at all. -/
theorem act_step_of_waiting (depth : ℕ) (hm : b.machine? slot = some m)
    (hwait : m.state.isWaiting = true) : (b.act depth (.operate slot .step)).2 = b := by
  simp only [act, perform, operate, withMachine, hm]
  split
  · rfl
  · have still : m.operate b.held .step = ⟨.ok .nothing, m, []⟩ := by
      simp [Machine.operate, Outcome.map, Machine.step_of_waiting hwait, Except.map]
    rw [still]
    exact setMachine_self hm

theorem Trims.after_eq {run trimmed : List Action} (h : Trims depth slot b run trimmed) :
    b.after depth trimmed = b.after depth run := by
  induction h with
  | nil b => rfl
  | keep action _ ih => exact ih
  | drop hm hwait _ ih => rw [after_cons, act_step_of_waiting depth hm hwait, ih]

/-! ## The wait -/

/-- What holds after idle actions, when the board and the machine `m` in a slot were these just
    after the instruction that waits for a key to go to `x`. -/
structure KeyWait (depth : ℕ) (slot : Slot) (x : Register) (b : Board) (m : Machine)
    (actions : List Action) : Prop where
  /-- The machine is the same, its random source included, but for its timers and the mark on its
      screen. -/
  machine : (b.after depth actions).machine? slot =
    some (m.lapse (actions.countP (·.isTick)) (actions.any (·.isTake)))
  /-- A step succeeds, and a word is not executed. -/
  step : ((b.after depth actions).act depth (.operate slot .step)).1 = .gain (.ok .nothing)
  execute (w : Word) :
    ((b.after depth actions).act depth (.operate slot (.execute w))).1 = .gain (.error .blocked)
  /-- A key that was down is down until it is released. -/
  held (key : UInt8) : (b.after depth actions).held.isDown key = true ↔
    b.held.isDown key = true ∧ .release key ∉ actions
  /-- A press of a key that is down, or of no key, does not end the wait. -/
  lasts {key : UInt8} (h : isKey key = true → (b.after depth actions).held.isDown key = true) :
    ((b.after depth actions).act depth (.press key)).2.machine? slot =
      (b.after depth actions).machine? slot
  /-- A press of a key that is up ends it, if the other listeners leave the machine alone: the
      register becomes the number of the key, and nothing else about the machine changes. -/
  ends {key : UInt8} (hspares : b.Every (Device.Plays (Action.Spares slot)))
      (hkey : isKey key = true) (hup : (b.after depth actions).held.isDown key = false) :
    key.toNat ≤ 15 ∧ ((b.after depth actions).act depth (.press key)).2.machine? slot =
      some { m with
        state := { m.state.lapse (actions.countP (·.isTick)) (actions.any (·.isTake)) with
          v := m.state.v.set x key x.isLt, awaiting := none } }
  /-- Later presses do nothing to the machine until it waits again. -/
  ended {key other : UInt8} {later : List Action}
      (hspares : b.Every (Device.Plays (Action.Spares slot))) (hkey : isKey key = true)
      (hup : (b.after depth actions).held.isDown key = false)
      (hlater : ((b.after depth actions).act depth (.press key)).2.UnaskedRun depth slot later) :
    ((((b.after depth actions).act depth (.press key)).2.after depth later).act depth
        (.press other)).2.machine? slot =
      (((b.after depth actions).act depth (.press key)).2.after depth later).machine? slot
  /-- The steps that a machine makes while it waits can be left out of any run. -/
  trims {c : Board} {run trimmed : List Action} (h : Trims depth slot c run trimmed) :
    c.after depth trimmed = c.after depth run

/-- The press that ends the wait, with all there is to know about it. -/
theorem Attends.press (hwait : m.state.awaiting = some x) (h : b.Attends slot m)
    (hspares : b.Every (Device.Plays (Action.Spares slot))) (depth : ℕ) {key : UInt8}
    (hkey : isKey key = true) (hup : b.held.isDown key = false) :
    (b.act depth (.press key)).2.Proceeds slot
      { m with state := { m.state with v := m.state.v.set x key x.isLt, awaiting := none } } := by
  have heard := h.rests.press hspares depth hkey hup
  have hears : m.hear key =
      { m with state := { m.state with v := m.state.v.set x key x.isLt, awaiting := none } } := by
    simp [Machine.hear, State.hear, hwait]
  rw [if_pos h.registered, hears] at heard
  exact ⟨heard, rfl, hspares.act (Device.lasting_plays (Action.Spares slot)) depth trivial⟩

theorem Attends.keyWait (hwait : m.state.awaiting = some x) (h : b.Attends slot m)
    (hidle : b.IdleRun depth slot actions) : KeyWait depth slot x b m actions := by
  have start : b.Attends slot (m.lapse 0 false) := by
    rw [Machine.lapse_zero]
    exact h
  have now := start.idleRun hwait hidle
  rw [Nat.zero_add, Bool.false_or] at now
  have unended : (m.lapse (actions.countP (·.isTick)) (actions.any (·.isTake))).state.awaiting =
      some x :=
    hwait
  have waits := Machine.isWaiting_of_awaiting unended
  have pressed {key : UInt8} (hspares : b.Every (Device.Plays (Action.Spares slot)))
      (hkey : isKey key = true) (hup : (b.after depth actions).held.isDown key = false) :
      ((b.after depth actions).act depth (.press key)).2.Proceeds slot
        { m with
          state := { m.state.lapse (actions.countP (·.isTick)) (actions.any (·.isTake)) with
            v := m.state.v.set x key x.isLt, awaiting := none } } :=
    now.press unended (hspares.idleRun hidle) depth hkey hup
  exact {
    machine := now.rests.machine
    step := by
      rw [now.rests.operate_eq]
      simp [Machine.operate, Outcome.map, Machine.step_of_waiting waits, Except.map]
    execute := fun w => by
      rw [now.rests.operate_eq]
      simp [Machine.operate, Outcome.map, Machine.execute_of_waiting waits, Except.map]
    held := isDown_idleRun hidle
    lasts := fun hdown =>
      (now.press_of_not_up depth hdown).rests.machine.trans now.rests.machine.symm
    ends := fun {key} hspares hkey hup => by
      have lt : key < 16 := by simpa [isKey] using hkey
      exact ⟨Nat.le_of_lt_succ (UInt8.lt_iff_toNat_lt.mp lt),
        (pressed hspares hkey hup).rests.machine⟩
    ended := fun {key other later} hspares hkey hup hlater => by
      obtain ⟨m', after⟩ := (pressed hspares hkey hup).after hlater
      rw [(after.press depth other).machine, after.rests.machine]
    trims := fun h => h.after_eq }

/-- **Main theorem.** A machine that is registered and not in use waits once it performs the
    instruction that waits for a key, until a key goes down. -/
theorem key_wait (h : b.Attends slot m) (hop : m.instruction? b.held op = some (.awaitKey x))
    (hidle : (b.act depth (.operate slot op)).2.IdleRun depth slot actions) :
    (m.operate b.held op).machine.state.awaiting = some x ∧
      (b.act depth (.operate slot op)).2.machine? slot = some (m.operate b.held op).machine ∧
      KeyWait depth slot x (b.act depth (.operate slot op)).2 (m.operate b.held op).machine
        actions := by
  have waits := Machine.awaiting_of_instruction? hop
  have operated := h.operate depth op
  exact ⟨waits, operated.rests.machine, operated.keyWait waits hidle⟩

/-- A machine and another listener on a keypad whose key 7 is down. -/
def waitingRoom (source : ByteSource) : Board :=
  (empty .atDispatch).after 1 [.press 7, .plugMachine source true, .plugScript [.askKey 3], .add 1]

theorem attends_waitingRoom (source : ByteSource) :
    (waitingRoom source).Attends 0 { Machine.new source with subscription := .active ⟨0⟩ } where
  rests := ⟨rfl, rfl⟩
  registered := by
    have registered : (waitingRoom source).registry.audience = [0, 1] := rfl
    rw [registered]
    exact List.mem_cons_self

theorem spares_waitingRoom (source : ByteSource) :
    (waitingRoom source).Every (Device.Plays (Action.Spares 0)) := by
  have outlets : (waitingRoom source).outlets =
      [⟨.machine { Machine.new source with subscription := .active ⟨0⟩ }, true, 0, false⟩,
        ⟨.script [.askKey 3], true, 0, false⟩] := rfl
  intro o ho
  rw [outlets] at ho
  rcases List.mem_cons.mp ho with rfl | ho
  · trivial
  · rw [List.mem_singleton.mp ho]
    exact ⟨trivial, trivial⟩

/-- A machine waits for a key to go to register 3, while key 7 is held and let go. Then key 5 is
    pressed. -/
theorem key_wait_of_waitingRoom :
    let b := ((waitingRoom (.ofBytes #[])).act 1 (.operate 0 (.execute 0xF30A))).2
    let actions : List Action := [.operate 0 .step, .press 7, .operate 0 .tick, .press 20,
      .operate 0 (.execute 0x00E0), .release 7, .operate 0 .takeFrame]
    let m : Machine := { Machine.new (.ofBytes #[]) with subscription := .active ⟨0⟩ }
    b.IdleRun 1 0 actions ∧
      KeyWait 1 0 3 b (m.operate (waitingRoom (.ofBytes #[])).held (.execute 0xF30A)).machine
        actions ∧
      ∃ m', ((b.after 1 actions).act 1 (.press 5)).2.machine? 0 = some m' ∧
        m'.state.v.get 3 = 5 := by
  intro b actions m
  have executed : m.executed? (waitingRoom (.ofBytes #[])).held 0xF30A = some (.awaitKey 3) :=
    Machine.executed?_eq_some_iff.mpr ⟨rfl, by decide, rfl⟩
  have performed : m.instruction? (waitingRoom (.ofBytes #[])).held (.execute 0xF30A) =
      some (.awaitKey 3) := executed
  have idle : b.IdleRun 1 0 actions := by
    simp only [actions, IdleRun, Idle, and_true, true_and, Machine.Op.IsIdle]
    exact ⟨fun _ => rfl, fun h => by cases h⟩
  have attends := attends_waitingRoom (.ofBytes #[])
  have waits := (key_wait attends performed idle).2.2
  have spares : b.Every (Device.Plays (Action.Spares 0)) := by
    have start : (waitingRoom (.ofBytes #[])).Every (Device.Plays (Action.Spares 0)) :=
      spares_waitingRoom (.ofBytes #[])
    exact start.act (Device.lasting_plays (Action.Spares 0)) 1 trivial
  have up : (b.after 1 actions).held.isDown 5 = false := rfl
  exact ⟨idle, waits, _, (waits.ends spares rfl up).2, Vector.getElem_set_self _⟩

end Board

end Chip8
