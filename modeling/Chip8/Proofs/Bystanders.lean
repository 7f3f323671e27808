import Chip8.Proofs.Balance

/-!
# Bystanders

A machine that nobody uses at the moment stays as it is while other devices are plugged in and
out, registered and operated. If the scripts of the other listeners leave it alone and press no
keys, then a press of a key does nothing to it but let it hear the key.

* `Action.Spares`: actions that leave the device of a slot alone.
* `Board.Rests`: a machine that nobody uses.
* `Rests.perform`, `Rests.hearing`: what leaves a machine alone does not change it.
* `Rests.press`: what a press does to a machine among such listeners.
-/

namespace Chip8

/-! ## Actions that leave a device alone -/

/-- Whether an action by itself neither touches the device of a slot nor presses any key. -/
def Action.Spares (slot : Slot) : Action → Prop
  | .attach other | .detach other | .operate other _ | .unplug other => other ≠ slot
  | .press _ | .pressBusy _ _ => False
  | .plugScript _ | .plugMachine _ _ | .add _ | .remove _ | .release _ | .askKey _
  | .askCount => True

/-! ## Machines that nobody uses -/

theorem State.hear_of_awaiting_none {s : State} (h : s.awaiting = none) (key : UInt8) :
    s.hear key = s := by
  unfold State.hear
  rw [h]

theorem State.hear_hear (s : State) (key later : UInt8) : (s.hear key).hear later = s.hear key := by
  unfold State.hear
  cases h : s.awaiting with
  | none => simp [h]
  | some x => rfl

theorem Machine.hear_hear (m : Machine) (key later : UInt8) :
    (m.hear key).hear later = m.hear key := by
  unfold Machine.hear
  rw [State.hear_hear]

namespace Board

/-- A machine is in a slot, and nobody uses it. -/
structure Rests (b : Board) (slot : Slot) (m : Machine) : Prop where
  machine : b.machine? slot = some m
  free : b.isBusy slot = false

variable {b c : Board} {slot other : Slot} {m : Machine}

theorem Rests.outlet (h : b.Rests slot m) :
    ∃ o, b.outlet? slot = some o ∧ o.machine? = some m ∧ o.busy = false := by
  obtain ⟨o, ho, hm⟩ := Option.bind_eq_some_iff.mp h.machine
  exact ⟨o, ho, hm, by simpa [isBusy, ho] using h.free⟩

theorem Rests.of_outlet {o : Outlet} (ho : b.outlet? slot = some o) (hm : o.machine? = some m)
    (hfree : o.busy = false) : b.Rests slot m :=
  ⟨Option.bind_eq_some_iff.mpr ⟨o, ho, hm⟩, by simp [isBusy, ho, hfree]⟩

theorem Rests.isAlive (h : b.Rests slot m) : b.isAlive slot = true := isAlive_of_machine? h.machine

theorem Rests.device (h : b.Rests slot m) : b.device? slot = some (.machine m) :=
  device?_of_machine? h.machine

theorem Rests.of_outlets_eq (h : b.Rests slot m) (heq : c.outlets = b.outlets) :
    c.Rests slot m := by
  obtain ⟨o, ho, hm, hfree⟩ := h.outlet
  refine .of_outlet ?_ hm hfree
  unfold outlet? at ho ⊢
  rw [heq, ho]

/-- An outlet may change if its machine is the same and as free as before. -/
theorem Rests.modify (h : b.Rests slot m) {f : Outlet → Outlet}
    (hf : other = slot → ∀ o, (f o).machine? = o.machine? ∧ (f o).busy = o.busy) :
    (b.modify other f).Rests slot m := by
  obtain ⟨o, ho, hm, hfree⟩ := h.outlet
  by_cases same : other = slot
  · subst same
    exact .of_outlet (outlet?_modify_self ho f) ((hf rfl o).1.trans hm) ((hf rfl o).2.trans hfree)
  · exact .of_outlet ((outlet?_modify_of_ne same f).trans ho) hm hfree

theorem Rests.modify_of_ne (h : b.Rests slot m) (hne : other ≠ slot) (f : Outlet → Outlet) :
    (b.modify other f).Rests slot m :=
  h.modify fun same => absurd same hne

/-- The machine may be replaced. -/
theorem Rests.setMachine (h : b.Rests slot m) (m' : Machine) :
    (b.setMachine slot m').Rests slot m' := by
  obtain ⟨o, ho, hm, hfree⟩ := h.outlet
  have plugged := (Outlet.machine?_eq_some_iff.mp hm).2
  have after : (b.setMachine slot m').outlet? slot = some { o with device := .machine m' } :=
    outlet?_modify_self ho _
  exact .of_outlet after (by simp [Outlet.machine?, plugged]) hfree

theorem Rests.report (h : b.Rests slot m) (entries : List Entry) :
    (b.report entries).Rests slot m :=
  h.of_outlets_eq (outlets_report _ _)

theorem Rests.tell (h : b.Rests slot m) (event : Event) : (b.tell event).Rests slot m :=
  h.of_outlets_eq rfl

theorem Rests.hold (h : b.Rests slot m) (other : Slot) : (b.hold other).Rests slot m :=
  h.modify fun _ _ => ⟨rfl, rfl⟩

theorem Rests.foldl_hold (h : b.Rests slot m) (slots : List Slot) :
    (slots.foldl Board.hold b).Rests slot m :=
  List.foldlRecOn (motive := (Rests · slot m)) slots _ h fun _ rests other _ =>
    rests.hold other

theorem Rests.inside (h : b.Rests slot m) : slot < b.outlets.length := by
  obtain ⟨o, ho, -⟩ := h.outlet
  exact (List.getElem?_eq_some_iff.mp ho).1

/-- What changes other devices only leaves the machine as it is. -/
theorem Rests.chore (h : b.Rests slot m) (hbc : Chore (· ≠ slot) b c) : c.Rests slot m := by
  cases hbc with
  | report entries => exact h.report entries
  | setMachine hne n => exact h.modify_of_ne hne _
  | plug device =>
    obtain ⟨o, ho, hm, hfree⟩ := h.outlet
    exact .of_outlet (outlet?_plug_of_some ho device) hm hfree
  | empty hne => exact h.modify_of_ne hne _
  | register _ => exact h.of_outlets_eq rfl
  | unregister ticket => exact h.of_outlets_eq rfl
  | forget _ => exact h.of_outlets_eq rfl

theorem Rests.chores (h : b.Rests slot m) (hbc : Chores (· ≠ slot) b c) : c.Rests slot m :=
  invariant_of_steps (P := (Rests · slot m)) (fun chore rests => rests.chore chore) hbc h

/-- A machine that is plugged in survives whoever dies. -/
theorem Rests.letGo (h : b.Rests slot m) (other : Slot) : (b.letGo other).Rests slot m := by
  have given : (b.modify other fun o => { o with holds := o.holds - 1 }).Rests slot m :=
    h.modify fun _ _ => ⟨rfl, rfl⟩
  refine given.chores (.settle fun dead => ?_)
  rintro rfl
  exact Bool.false_ne_true (dead.symm.trans given.isAlive)

theorem Rests.release (h : b.Rests slot m) (key : UInt8) : (b.release key).Rests slot m := by
  unfold Board.release
  simp only
  split
  · exact h.of_outlets_eq rfl
  · exact Rests.report (h.tell _) _

/-- What leaves a machine alone does not change it. -/
theorem Rests.perform {play : Play} {action : Action} (h : b.Rests slot m)
    (hspares : action.Spares slot) : (b.perform play action).2.Rests slot m := by
  have chores (hquiet : action.IsQuiet) (htarget : ∀ other ∈ action.target?, other ≠ slot) :
      (b.perform play action).2.Rests slot m :=
    h.chores (.perform hquiet htarget h.inside.ne')
  cases action with
  | press key => exact hspares.elim
  | pressBusy other key => exact hspares.elim
  | release key => exact h.release key
  | attach other | detach other | operate other op | unplug other =>
    refine chores trivial fun named hnamed => ?_
    rw [← Option.some.inj hnamed]
    exact hspares
  | _ => exact chores trivial fun named hnamed => by cases hnamed

theorem Rests.hearing (h : b.Rests slot m) (depth : ℕ) (other : Slot) {script : List Action}
    (hspares : ThroughoutAll (Action.Spares slot) script) :
    (Board.hearing depth other script b).Rests slot m := by
  cases depth with
  | zero => exact h.tell _
  | succ depth =>
    refine List.foldlRecOn (motive := (Rests · slot m)) script _ h ?_
    intro c rests action hmem
    exact Rests.tell (rests.perform (hspares.forall_mem action hmem).self) _

/-! ## Presses -/

/-- A turn of another listener does not change the machine. -/
theorem Rests.turn (h : b.Rests slot m) (hne : other ≠ slot)
    (hspares : b.Every (Device.Plays (Action.Spares slot))) (depth number : ℕ) (key : UInt8) :
    (Board.turn (Board.hearing depth) number key b other).Rests slot m := by
  cases ho : b.outlet? other with
  | none =>
    rw [turn_of_none ho]
    exact h.letGo other
  | some o =>
    cases busy : b.isBusy other with
    | true =>
      rw [turn_of_busy busy]
      exact Rests.letGo (Rests.report (h.tell _) _) other
    | false =>
      have hdevice : b.device? other = some o.device := device?_of_outlet? ho
      have heard : (b.heardBy number key other).Rests slot m :=
        Rests.modify_of_ne (h.tell _) hne _
      have answered : ((b.heardBy number key other).respond (Board.hearing depth) key other
          o.device).Rests slot m := by
        cases hscript : o.device with
        | machine n => exact heard.modify_of_ne hne _
        | script actions =>
          rw [hscript] at hdevice
          have spares : ThroughoutAll (Action.Spares slot) actions := hspares.device? hdevice
          exact heard.hearing depth other spares
      rw [turn_of_free hdevice busy, deliver_eq]
      exact Rests.letGo (Rests.tell (answered.modify_of_ne hne _) _) other

/-- In its own turn, the machine hears the key. -/
theorem Rests.turn_self (h : b.Rests slot m) (play : Play) (number : ℕ) (key : UInt8) :
    (Board.turn play number key b slot).Rests slot (m.hear key) := by
  obtain ⟨o, ho, hm, -⟩ := h.outlet
  have plugged := (Outlet.machine?_eq_some_iff.mp hm).2
  have told : (b.tell (.heard number slot key)).outlet? slot = some o := ho
  have busy : (b.heardBy number key slot).outlet? slot = some { o with busy := true } :=
    outlet?_modify_self told _
  have set : ((b.heardBy number key slot).setMachine slot (m.hear key)).outlet? slot =
      some { o with device := .machine (m.hear key), busy := true } :=
    outlet?_modify_self busy _
  have heard : ((((b.heardBy number key slot).setMachine slot (m.hear key)).setBusy slot
      false).tell (.done number slot)).outlet? slot =
      some { o with device := .machine (m.hear key), busy := false } :=
    outlet?_modify_self set _
  rw [turn_of_free h.device h.free, deliver_eq]
  exact Rests.letGo (.of_outlet heard (by simp [Outlet.machine?, plugged]) rfl) slot

/-- The machine hears the key once, whether or not other listeners have turns before and after. -/
theorem Rests.foldl_turn (h : b.Rests slot m)
    (hspares : b.Every (Device.Plays (Action.Spares slot))) (depth number : ℕ) (key : UInt8)
    (slots : List Slot) :
    (slots.foldl (Board.turn (Board.hearing depth) number key) b).Rests slot
      (if slot ∈ slots then m.hear key else m) := by
  induction slots generalizing b m with
  | nil => exact h
  | cons first rest ih =>
    have lasting := Device.lasting_plays (Action.Spares slot)
    have later := hspares.turn lasting (Every.hearing lasting depth) number key first
    by_cases same : first = slot
    · subst same
      have after := ih (h.turn_self (Board.hearing depth) number key) later
      rw [Machine.hear_hear, ite_self] at after
      rw [if_pos List.mem_cons_self]
      exact after
    · have after := ih (h.turn same hspares depth number key) later
      simp only [List.mem_cons, Ne.symm same, false_or]
      exact after

/-- A press of a key that is up lets the machine hear it, if it is registered. -/
theorem Rests.press (h : b.Rests slot m) (hspares : b.Every (Device.Plays (Action.Spares slot)))
    (depth : ℕ) {key : UInt8} (hkey : isKey key = true) (hup : b.held.isDown key = false) :
    (b.press (Board.hearing depth) key).Rests slot
      (if slot ∈ b.registry.audience then m.hear key else m) := by
  have out : (b.setOut key).Rests slot m := h.of_outlets_eq rfl
  have underWay : (b.underWay key).Rests slot m := out.foldl_hold b.audience
  have every : (b.underWay key).Every (Device.Plays (Action.Spares slot)) :=
    Every.foldl_hold (b := b.setOut key) hspares b.audience
  have told := underWay.foldl_turn every depth b.dispatches key b.audience
  have member : slot ∈ b.audience ↔ slot ∈ b.registry.audience := by
    rw [mem_audience_iff, h.isAlive]
    exact and_iff_left rfl
  simp only [member] at told
  rw [press_of_up hkey hup]
  exact told.tell _

/-- A press of a key that is down, or of no key, does nothing to the machine. -/
theorem Rests.press_of_not_up (h : b.Rests slot m) (play : Play) {key : UInt8}
    (hdown : isKey key = true → b.held.isDown key = true) : (b.press play key).Rests slot m := by
  cases hkey : isKey key with
  | false =>
    rw [press_of_not_isKey hkey]
    exact Rests.report (h.tell _) _
  | true =>
    rw [press_of_down hkey (hdown hkey)]
    exact h.tell _

end Board

end Chip8
