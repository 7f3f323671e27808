import Chip8.Proofs.Moments

/-!
# What an action leaves as it found it

An action may let listeners respond, and these may act in turn; but when it is over, the same holds
are on the devices that were there before, the same devices are busy, no emptied slot is filled
again, and nothing was added to what is told of the dispatches that were under way.

* `Board.Kept`: this relation between the board before and the board after.
* `Quiet`: the keys and the number of dispatches are the same, too.
* `Kept.of_busy`, `Kept.of_held`: what somebody takes in use and gives back.
* `Kept.turn`, `Kept.perform`, `Course.kept`: turns, actions and courses of actions keep all this.
* `outlet_atTurn`: the outlets in the middle of a dispatch.
* `Board.BusyHeld`, `Moment.busyHeld`: at every moment, somebody holds on to what is busy.
-/

namespace Chip8

namespace Board

/-- What is told of a dispatch, the earliest first. -/
def eventsOf (b : Board) (number : ℕ) : List Event :=
  (b.history.filter fun event => event.number? = some number).reverse

theorem eventsOf_tell (b : Board) (event : Event) (number : ℕ) :
    (b.tell event).eventsOf number =
      b.eventsOf number ++ if event.number? = some number then [event] else [] := by
  unfold eventsOf tell
  by_cases h : event.number? = some number
  · simp [h]
  · simp [h]

theorem eventsOf_tell_self {event : Event} {number : ℕ} (h : event.number? = some number)
    (b : Board) : (b.tell event).eventsOf number = b.eventsOf number ++ [event] := by
  rw [eventsOf_tell, if_pos h]

theorem eventsOf_tell_other {event : Event} {number : ℕ} (h : event.number? ≠ some number)
    (b : Board) : (b.tell event).eventsOf number = b.eventsOf number := by
  rw [eventsOf_tell, if_neg h, List.append_nil]

@[simp] theorem eventsOf_report (b : Board) (entries : List Entry) (number : ℕ) :
    (b.report entries).eventsOf number = b.eventsOf number := by
  refine related_report (R := fun b c => c.eventsOf number = b.eventsOf number) (fun _ => rfl)
    (fun first later => later.trans first) (fun b entry => ?_) b entries
  exact eventsOf_tell_other (by simp [Event.number?]) b

@[simp] theorem dispatches_report (b : Board) (entries : List Entry) :
    (b.report entries).dispatches = b.dispatches := by
  obtain ⟨history, h⟩ := b.exists_report entries
  rw [h]

/-- What is the same on two boards, apart from the holds that were given up in between. What is
    told of the dispatches that are `settled` is the same, too. -/
structure Kept (settled : ℕ → Prop) (given : List Slot) (b c : Board) : Prop where
  outlet {slot : Slot} {o : Outlet} (ho : b.outlet? slot = some o) :
    ∃ o', c.outlet? slot = some o' ∧ o'.holds + given.count slot = o.holds ∧ o'.busy = o.busy ∧
      (o'.plugged = true → o.plugged = true)
  new {slot : Slot} {o' : Outlet} (hnone : b.outlet? slot = none)
    (ho' : c.outlet? slot = some o') : o'.busy = false
  dispatches_le : b.dispatches ≤ c.dispatches
  eventsOf_eq {number : ℕ} (h : settled number) : c.eventsOf number = b.eventsOf number

variable {settled : ℕ → Prop} {number : ℕ} {given : List Slot} {slot : Slot} {b c : Board}

theorem Kept.of_outlets_eq (houtlets : c.outlets = b.outlets)
    (hdispatches : b.dispatches ≤ c.dispatches)
    (hevents : ∀ number, settled number → c.eventsOf number = b.eventsOf number) :
    Kept settled [] b c where
  outlet {slot o} ho := by
    refine ⟨o, ?_, by simp⟩
    unfold outlet? at ho ⊢
    rw [houtlets, ho]
  new {slot o'} hnone ho' := by
    unfold outlet? at hnone ho'
    rw [houtlets, hnone] at ho'
    cases ho'
  dispatches_le := hdispatches
  eventsOf_eq {number} h := hevents number h

theorem Kept.refl (b : Board) : Kept settled [] b b :=
  .of_outlets_eq rfl le_rfl fun _ _ => rfl

theorem Kept.trans {d : Board} {given' : List Slot} (h : Kept settled given b c)
    (h' : Kept settled given' c d) : Kept settled (given ++ given') b d where
  outlet {slot o} ho := by
    obtain ⟨o', ho', holds, busy, plugged⟩ := h.outlet ho
    obtain ⟨o'', ho'', holds', busy', plugged'⟩ := h'.outlet ho'
    refine ⟨o'', ho'', ?_, busy'.trans busy, fun p => plugged (plugged' p)⟩
    rw [List.count_append]
    omega
  new {slot o''} hnone ho'' := by
    cases ho' : c.outlet? slot with
    | none => exact h'.new ho' ho''
    | some o' =>
      obtain ⟨other, hother, -, busy, -⟩ := h'.outlet ho'
      rw [ho'', Option.some.injEq] at hother
      rw [hother, busy]
      exact h.new hnone ho'
  dispatches_le := h.dispatches_le.trans h'.dispatches_le
  eventsOf_eq hlt := (h'.eventsOf_eq hlt).trans (h.eventsOf_eq hlt)

theorem Kept.mono {more : ℕ → Prop} (h : Kept more given b c)
    (hmore : ∀ number, settled number → more number) : Kept settled given b c :=
  ⟨h.outlet, h.new, h.dispatches_le, fun hnumber => h.eventsOf_eq (hmore _ hnumber)⟩

/-- Whether somebody can have these holds, one for each time that a slot is in the list. -/
def Holds (b : Board) (slots : List Slot) : Prop :=
  ∀ slot ∈ slots, ∃ o, b.outlet? slot = some o ∧ slots.count slot ≤ o.holds

theorem Holds.pos (h : b.Holds [slot]) : ∃ o, b.outlet? slot = some o ∧ 0 < o.holds := by
  obtain ⟨o, ho, count⟩ := h slot List.mem_cons_self
  rw [List.count_singleton_self] at count
  exact ⟨o, ho, count⟩

theorem Holds.left {rest : List Slot} (h : b.Holds (given ++ rest)) : b.Holds given := by
  intro slot hslot
  obtain ⟨o, ho, count⟩ := h slot (List.mem_append_left rest hslot)
  rw [List.count_append] at count
  exact ⟨o, ho, by omega⟩

/-- The holds that are not given up are still there. -/
theorem Kept.holds {rest : List Slot} (h : Kept settled given b c) (hb : b.Holds (given ++ rest)) :
    c.Holds rest := by
  intro slot hslot
  obtain ⟨o, ho, count⟩ := hb slot (List.mem_append_right given hslot)
  obtain ⟨o', ho', holds, -⟩ := h.outlet ho
  rw [List.count_append] at count
  exact ⟨o', ho', by omega⟩

/-! ## Single parts of a board -/

theorem Kept.modify {f : Outlet → Outlet}
    (hf : ∀ o, (f o).holds = o.holds ∧ (f o).busy = o.busy ∧
      ((f o).plugged = true → o.plugged = true)) :
    Kept settled [] b (b.modify slot f) where
  outlet {other o} ho := by
    refine ⟨if slot = other then f o else o, by rw [outlet?_modify, ho]; rfl, ?_⟩
    split
    · exact ⟨(hf o).1, (hf o).2⟩
    · exact ⟨rfl, rfl, id⟩
  new {other o'} hnone ho' := by
    rw [outlet?_modify, hnone] at ho'
    cases ho'
  dispatches_le := le_rfl
  eventsOf_eq _ := rfl

theorem Kept.setMachine (b : Board) (slot : Slot) (m : Machine) :
    Kept settled [] b (b.setMachine slot m) :=
  .modify fun _ => ⟨rfl, rfl, id⟩

theorem Kept.report (b : Board) (entries : List Entry) : Kept settled [] b (b.report entries) :=
  .of_outlets_eq (outlets_report b entries) (by simp) (by simp)

theorem Kept.plug (b : Board) (device : Device) : Kept settled [] b (b.plug device).2 where
  outlet {slot o} ho := ⟨o, outlet?_plug_of_some ho device, rfl, rfl, id⟩
  new {slot o'} hnone ho' := by
    rw [outlet?_plug, hnone] at ho'
    split at ho' <;> cases ho'
    rfl
  dispatches_le := le_rfl
  eventsOf_eq _ := rfl

theorem Chore.kept {touched : Slot → Prop} (h : Chore touched b c) : Kept settled [] b c := by
  cases h with
  | report entries => exact .report b entries
  | setMachine _ m => exact .setMachine b _ m
  | plug device => exact .plug b device
  | empty _ => exact .modify fun o => ⟨rfl, rfl, fun h => by cases h⟩
  | register _ => exact .of_outlets_eq rfl le_rfl fun _ _ => rfl
  | unregister ticket => exact .of_outlets_eq rfl le_rfl fun _ _ => rfl
  | forget _ => exact .of_outlets_eq rfl le_rfl fun _ _ => rfl

theorem Chores.kept {touched : Slot → Prop} (h : Chores touched b c) : Kept settled [] b c :=
  h.keeps .refl .trans Chore.kept

theorem Kept.settle (b : Board) (slot : Slot) : Kept settled [] b (b.settle slot) :=
  (chores_settle b slot).kept

/-- A hold that somebody has can be given up. -/
theorem Kept.letGo (h : b.Holds [slot]) : Kept settled [slot] b (b.letGo slot) := by
  obtain ⟨held, hheld, positive⟩ := h.pos
  have given : Kept settled [slot] b (b.modify slot fun o => { o with holds := o.holds - 1 }) := by
    refine ⟨fun {other o} ho => ?_, fun {other o'} hnone ho' => ?_, le_rfl, fun _ => rfl⟩
    · refine ⟨_, by rw [outlet?_modify, ho, Option.map_some], ?_⟩
      by_cases same : slot = other
      · subst same
        rw [hheld, Option.some.injEq] at ho
        subst ho
        refine ⟨?_, by simp, by simp⟩
        simp only [↓reduceIte, List.count_singleton_self]
        omega
      · simp [same]
    · rw [outlet?_modify, hnone] at ho'
      cases ho'
  exact given.trans (.settle _ _)

theorem outlet?_report (b : Board) (entries : List Entry) (slot : Slot) :
    (b.report entries).outlet? slot = b.outlet? slot := by
  unfold outlet?
  rw [outlets_report]

/-- A device outlives a hold on it if there is another. -/
theorem device?_letGo_of_held {o : Outlet} (ho : b.outlet? slot = some o) (h : 1 < o.holds) :
    (b.letGo slot).device? slot = b.device? slot := by
  have after : (b.modify slot fun o => { o with holds := o.holds - 1 }).outlet? slot =
      some { o with holds := o.holds - 1 } :=
    outlet?_modify_self ho _
  have alive : (b.modify slot fun o => { o with holds := o.holds - 1 }).isAlive slot = true := by
    have positive : 0 < o.holds - 1 := by omega
    exact isAlive_eq_true_iff.mpr ⟨_, after, by simp [Outlet.isAlive, positive]⟩
  rw [letGo, settle_of_isAlive alive, device?, after, device?, ho]
  rfl

theorem device?_report (b : Board) (entries : List Entry) (slot : Slot) :
    (b.report entries).device? slot = b.device? slot := by
  unfold device?
  rw [outlet?_report]

theorem device?_setMachine {device : Device} (h : b.device? slot = some device) (m : Machine) :
    (b.setMachine slot m).device? slot = some (.machine m) := by
  obtain ⟨o, ho, -⟩ := Option.map_eq_some_iff.mp h
  unfold device? setMachine
  rw [outlet?_modify_self ho]
  rfl

@[simp] theorem device?_setBusy (b : Board) (slot other : Slot) (busy : Bool) :
    (b.setBusy slot busy).device? other = b.device? other := by
  unfold device? setBusy
  rw [outlet?_modify, Option.map_map]
  refine congrArg (Option.map · _) (funext fun o => ?_)
  by_cases same : slot = other
  · simp [same]
  · simp [same]

theorem machine_detachMachine {m : Machine} (h : b.device? slot = some (.machine m)) :
    ∃ m', (b.detachMachine slot m).device? slot = some (.machine m') ∧ m'.state = m.state ∧
      m'.source = m.source := by
  unfold detachMachine
  split
  · next ticket _ =>
    have ended := device?_setMachine h { m with subscription := .ended }
    exact ⟨_, (device?_report _ _ _).trans ended, rfl, rfl⟩
  · exact ⟨m, h, rfl, rfl⟩
  · exact ⟨m, h, rfl, rfl⟩

/-- A machine that dies may end its subscription, and is the same otherwise. -/
theorem machine_settle {m : Machine} (h : b.device? slot = some (.machine m)) :
    ∃ m', (b.settle slot).device? slot = some (.machine m') ∧ m'.state = m.state ∧
      m'.source = m.source := by
  cases dead : b.isAlive slot with
  | true =>
    rw [settle_of_isAlive dead]
    exact ⟨m, h, rfl, rfl⟩
  | false =>
    rw [settle_of_machine dead h]
    exact machine_detachMachine ((device?_bury b slot slot).trans h)

theorem machine_letGo {m : Machine} (h : b.device? slot = some (.machine m)) :
    ∃ m', (b.letGo slot).device? slot = some (.machine m') ∧ m'.state = m.state ∧
      m'.source = m.source := by
  obtain ⟨o, ho, device_eq⟩ := Option.map_eq_some_iff.mp h
  have there : (b.modify slot fun o => { o with holds := o.holds - 1 }).device? slot =
      some (.machine m) := by
    unfold device?
    rw [outlet?_modify_self ho, Option.map_some, device_eq]
  exact machine_settle there

/-- An event of a dispatch that is not settled, or of none, may be told. -/
theorem Kept.tell {event : Event} (h : ∀ number ∈ event.number?, ¬ settled number) :
    Kept settled [] b (b.tell event) := by
  refine .of_outlets_eq rfl le_rfl fun number hsettled => ?_
  have other : event.number? ≠ some number := fun hnumber => h number hnumber hsettled
  exact eventsOf_tell_other other b

theorem Kept.tell_of_number {event : Event} (hevent : event.number? = some number)
    (h : ¬ settled number) : Kept settled [] b (b.tell event) := by
  refine .tell fun other hother => ?_
  rw [hevent, Option.mem_some] at hother
  exact hother ▸ h

theorem eventsOf_letGo (b : Board) (slot : Slot) (number : ℕ) :
    (b.letGo slot).eventsOf number = b.eventsOf number := by
  have kept : Kept (fun _ => True) [] (b.modify slot fun o => { o with holds := o.holds - 1 })
      (b.letGo slot) :=
    .settle _ slot
  exact kept.eventsOf_eq trivial

/-! ## Keys and counts -/

/-- The keys are the same on two boards, and no dispatch was counted in between. -/
structure Quiet (b c : Board) : Prop where
  held : c.held = b.held
  dispatches : c.dispatches = b.dispatches

theorem Quiet.refl (b : Board) : Quiet b b := ⟨rfl, rfl⟩

theorem Quiet.trans {d : Board} (h : Quiet b c) (h' : Quiet c d) : Quiet b d :=
  ⟨h'.held.trans h.held, h'.dispatches.trans h.dispatches⟩

theorem Quiet.modify (b : Board) (slot : Slot) (f : Outlet → Outlet) :
    Quiet b (b.modify slot f) :=
  ⟨rfl, rfl⟩

theorem Quiet.tell (b : Board) (event : Event) : Quiet b (b.tell event) := ⟨rfl, rfl⟩

theorem Quiet.report (b : Board) (entries : List Entry) : Quiet b (b.report entries) := by
  obtain ⟨history, h⟩ := b.exists_report entries
  rw [h]
  exact ⟨rfl, rfl⟩

theorem Chore.quiet {touched : Slot → Prop} (h : Chore touched b c) : Quiet b c := by
  cases h with
  | report entries => exact .report b entries
  | _ => exact ⟨rfl, rfl⟩

theorem Chores.quiet {touched : Slot → Prop} (h : Chores touched b c) : Quiet b c :=
  h.keeps .refl .trans Chore.quiet

theorem Quiet.letGo (b : Board) (slot : Slot) : Quiet b (b.letGo slot) :=
  (Quiet.modify b slot _).trans (chores_settle _ slot).quiet

theorem Quiet.heardBy (b : Board) (number : ℕ) (key : UInt8) (slot : Slot) :
    Quiet b (b.heardBy number key slot) :=
  ⟨rfl, rfl⟩

/-- How a listener is left after its response. -/
theorem Quiet.leave (b : Board) (number : ℕ) (slot : Slot) :
    Quiet b (((b.setBusy slot false).tell (.done number slot)).letGo slot) :=
  ((Quiet.modify b slot _).trans (.tell _ _)).trans (.letGo _ _)

/-- How a device is left that was used. -/
theorem Quiet.giveBack (b : Board) (slot : Slot) :
    Quiet b ((b.setBusy slot false).letGo slot) :=
  (Quiet.modify b slot _).trans (.letGo _ _)

theorem quiet_press_of_not_up {play : Play} {key : UInt8}
    (hdown : isKey key = true → b.held.isDown key = true) : Quiet b (b.press play key) := by
  cases hkey : isKey key with
  | false =>
    rw [press_of_not_isKey hkey]
    exact (Quiet.tell b _).trans (.report _ _)
  | true =>
    rw [press_of_down hkey (hdown hkey)]
    exact .tell b _

theorem held_release (b : Board) (key : UInt8) : (b.release key).held = b.held.release key := by
  unfold release
  simp only
  split
  · rfl
  · next hkey =>
    rw [HeldKeys.release_of_not_isKey _ (Bool.eq_false_iff.mpr hkey)]
    exact (Quiet.report _ _).held

theorem Quiet.perform {play : Play} {action : Action} (h : action.IsQuiet) (b : Board) :
    Quiet b (b.perform play action).2 :=
  (chores_perform h b).quiet

/-! ## What is taken in use and given back -/

/-- A device that was free may be used in between. -/
theorem Kept.of_busy (h : Kept settled given (b.setBusy slot true) c)
    (hfree : b.isBusy slot = false) :
    Kept settled given b (c.setBusy slot false) where
  outlet {other o} ho := by
    have used : (b.setBusy slot true).outlet? other =
        some (if slot = other then { o with busy := true } else o) := by
      unfold Board.setBusy
      rw [outlet?_modify, ho, Option.map_some]
    obtain ⟨o', ho', holds, busy, plugged⟩ := h.outlet used
    refine ⟨if slot = other then { o' with busy := false } else o', ?_, ?_⟩
    · unfold Board.setBusy
      rw [outlet?_modify, ho', Option.map_some]
    · by_cases same : slot = other
      · subst same
        have free : o.busy = false := by simpa [isBusy, ho] using hfree
        simp only [↓reduceIte] at holds plugged ⊢
        exact ⟨holds, free.symm, plugged⟩
      · simp only [same, ↓reduceIte] at holds busy plugged ⊢
        exact ⟨holds, busy, plugged⟩
  new {other o'} hnone ho' := by
    have unused : (b.setBusy slot true).outlet? other = none := by
      unfold Board.setBusy
      rw [outlet?_modify, hnone, Option.map_none]
    unfold Board.setBusy at ho'
    rw [outlet?_modify] at ho'
    obtain ⟨before, hbefore, rfl⟩ := Option.map_eq_some_iff.mp ho'
    split
    · rfl
    · exact h.new unused hbefore
  dispatches_le := h.dispatches_le
  eventsOf_eq := h.eventsOf_eq

/-- The outlets of a board on which some are held on to. -/
theorem outlet?_foldl_hold (b : Board) (slots : List Slot) (slot : Slot) :
    (slots.foldl hold b).outlet? slot =
      (b.outlet? slot).map fun o => { o with holds := o.holds + slots.count slot } := by
  induction slots generalizing b with
  | nil => simp
  | cons first rest ih =>
    rw [List.foldl_cons, ih]
    unfold hold
    rw [outlet?_modify, Option.map_map]
    refine congrArg (Option.map · _) (funext fun o => ?_)
    by_cases same : first = slot
    · simp only [Function.comp_apply, same, ↓reduceIte, List.count_cons_self]
      rw [Nat.add_assoc, Nat.add_comm 1]
    · simp [same]

theorem exists_foldl_hold (b : Board) (slots : List Slot) :
    ∃ outlets, slots.foldl hold b = { b with outlets } := by
  induction slots generalizing b with
  | nil => exact ⟨b.outlets, rfl⟩
  | cons slot rest ih =>
    obtain ⟨outlets, h⟩ := ih (b.hold slot)
    exact ⟨outlets, h⟩

@[simp] theorem isBusy_foldl_hold (b : Board) (slots : List Slot) (slot : Slot) :
    (slots.foldl hold b).isBusy slot = b.isBusy slot := by
  unfold isBusy
  rw [outlet?_foldl_hold, Option.any_map]

theorem holds_foldl_hold {slots : List Slot} (h : ∀ slot ∈ slots, b.isAlive slot = true) :
    (slots.foldl hold b).Holds slots := by
  intro slot hslot
  obtain ⟨o, ho, -⟩ := isAlive_eq_true_iff.mp (h slot hslot)
  exact ⟨_, by rw [outlet?_foldl_hold, ho, Option.map_some], Nat.le_add_left _ _⟩

/-- Devices may be held on to in between. -/
theorem Kept.of_held (h : Kept settled given (given.foldl hold b) c) : Kept settled [] b c := by
  obtain ⟨outlets, rest_eq⟩ := b.exists_foldl_hold given
  refine ⟨fun {slot o} ho => ?_, fun {slot o'} hnone ho' => ?_, ?_, fun hlt => ?_⟩
  · have held := b.outlet?_foldl_hold given slot
    rw [ho, Option.map_some] at held
    obtain ⟨o', ho', holds, busy, plugged⟩ := h.outlet held
    exact ⟨o', ho', by simpa using holds, busy, plugged⟩
  · have held := b.outlet?_foldl_hold given slot
    rw [hnone, Option.map_none] at held
    exact h.new held ho'
  · have le := h.dispatches_le
    rw [rest_eq] at le
    exact le
  · have same := h.eventsOf_eq hlt
    rw [rest_eq] at same
    exact same

/-! ## Turns -/

theorem turn_of_none {play : Play} {key : UInt8} (h : b.outlet? slot = none) :
    turn play number key b slot = b.letGo slot := by
  unfold turn
  rw [h]

theorem turn_of_busy {play : Play} {key : UInt8} (h : b.isBusy slot = true) :
    turn play number key b slot =
      ((b.tell (.skipped number slot key)).report [.pressDropped key]).letGo slot := by
  obtain ⟨o, ho, busy⟩ := (Option.any_eq_true _ _).mp h
  unfold turn
  simp only [ho, busy, ↓reduceIte]

theorem turn_of_free {play : Play} {key : UInt8} {device : Device}
    (hdevice : b.device? slot = some device) (h : b.isBusy slot = false) :
    turn play number key b slot = (b.deliver play number key slot device).letGo slot := by
  obtain ⟨o, ho, rfl⟩ := Option.map_eq_some_iff.mp hdevice
  have free : o.busy = false := by simpa [isBusy, ho] using h
  unfold turn
  simp only [ho, free, Bool.false_eq_true, ↓reduceIte]

theorem Quiet.turn_of_busy (play : Play) (number : ℕ) (key : UInt8) (h : b.isBusy slot = true) :
    Quiet b (turn play number key b slot) := by
  rw [Board.turn_of_busy h]
  exact ((Quiet.tell b _).trans (.report _ _)).trans (.letGo _ _)

/-- A machine that hears a key does nothing on the board. -/
theorem Quiet.turn_of_machine (play : Play) (number : ℕ) (key : UInt8) {m : Machine}
    (hdevice : b.device? slot = some (.machine m)) (h : b.isBusy slot = false) :
    Quiet b (turn play number key b slot) := by
  rw [turn_of_free hdevice h, deliver_eq]
  exact ((Quiet.heardBy b number key slot).trans (.modify _ _ _)).trans (.leave _ _ _)

theorem Kept.setOut (b : Board) (key : UInt8) : Kept (· < b.dispatches) [] b (b.setOut key) := by
  refine .of_outlets_eq rfl (Nat.le_succ _) fun number hlt => ?_
  have told : (b.setOut key).eventsOf number =
      ((b.tell (.pressed key)).tell (.dispatched b.dispatches key b.audience)).eventsOf number :=
    rfl
  have other : b.dispatches ≠ number := hlt.ne'
  simp [told, eventsOf_tell, Event.number?, other]

theorem holds_underWay (b : Board) (key : UInt8) : (b.underWay key).Holds b.audience :=
  holds_foldl_hold (b := b.setOut key) fun slot hslot =>
    (isAlive_of_mem_audience hslot : b.isAlive slot = true)

section Responses

variable {play : Play}
  (hplay : ∀ slot script (d : Board), Kept (· < d.dispatches) [] d (play slot script d))

include hplay

theorem Kept.respond (hcount : ∀ n, settled n → n < b.dispatches) (key : UInt8) (slot : Slot)
    (device : Device) : Kept settled [] b (b.respond play key slot device) := by
  cases device with
  | machine m => exact .setMachine _ _ _
  | script actions => exact (hplay _ _ _).mono hcount

/-- A listener hears the key of a dispatch under way. -/
theorem Kept.deliver (hnumber : ¬ settled number)
    (hcount : ∀ n, settled n → n < b.dispatches) (key : UInt8)
    (hfree : b.isBusy slot = false) (device : Device) :
    Kept settled [] b (b.deliver play number key slot device) := by
  have told : Kept settled [] b (b.tell (.heard number slot key)) := .tell_of_number rfl hnumber
  have answered : Kept settled [] (b.heardBy number key slot)
      ((b.heardBy number key slot).respond play key slot device) :=
    .respond hplay (b := b.heardBy number key slot) hcount key slot device
  have free : (b.tell (.heard number slot key)).isBusy slot = false := hfree
  rw [deliver_eq]
  exact (told.trans (Kept.of_busy answered free)).trans (.tell_of_number rfl hnumber)

/-- A turn of a dispatch under way gives up the hold on its listener. -/
theorem Kept.turn (hnumber : ¬ settled number)
    (hcount : ∀ n, settled n → n < b.dispatches) (key : UInt8)
    (hheld : b.Holds [slot]) : Kept settled [slot] b (Board.turn play number key b slot) := by
  cases busy : b.isBusy slot with
  | true =>
    have told : Kept settled [] b (b.tell (.skipped number slot key)) := .tell_of_number rfl hnumber
    have skipped := told.trans (.report _ [.pressDropped key])
    rw [turn_of_busy busy]
    exact skipped.trans (.letGo (skipped.holds hheld))
  | false =>
    obtain ⟨o, ho, -⟩ := hheld.pos
    have heard := Kept.deliver hplay hnumber hcount key busy o.device
    rw [turn_of_free (device?_of_outlet? ho) busy]
    exact heard.trans (.letGo (heard.holds hheld))

/-- The turns of a dispatch under way give up the holds that it has. -/
theorem Kept.foldl_turn {slots : List Slot} (hnumber : ¬ settled number)
    (hcount : ∀ n, settled n → n < b.dispatches) (key : UInt8) (hheld : b.Holds slots) :
    Kept settled slots b (slots.foldl (Board.turn play number key) b) := by
  induction slots generalizing b with
  | nil => exact .refl b
  | cons slot rest ih =>
    have held : b.Holds ([slot] ++ rest) := hheld
    have first := Kept.turn hplay hnumber hcount key held.left
    have counted (n : ℕ) (hn : settled n) := (hcount n hn).trans_le first.dispatches_le
    exact first.trans (ih counted (first.holds held))

/-- The turns of a press that sets out give up the holds on those who had them. -/
theorem Kept.atTurn {key : UInt8} {before rest : List Slot}
    (haudience : b.audience = before ++ rest) (hnumber : ¬ settled b.dispatches)
    (hcount : ∀ n, settled n → n < (b.underWay key).dispatches) :
    Kept settled before (b.underWay key) (b.atTurn play key before) := by
  have held := b.holds_underWay key
  rw [haudience] at held
  exact .foldl_turn hplay hnumber hcount key held.left

/-- A dispatch under way still holds on to those whose turns are to come, and has not made anybody
    busy. -/
theorem outlet_atTurn (key : UInt8) {before rest : List Slot}
    (haudience : b.audience = before ++ rest) {o : Outlet} (ho : b.outlet? slot = some o) :
    ∃ o', (b.atTurn play key before).outlet? slot = some o' ∧
      o'.holds = o.holds + rest.count slot ∧ o'.busy = o.busy := by
  have kept : Kept (fun _ => False) before (b.underWay key) (b.atTurn play key before) :=
    .atTurn hplay haudience not_false fun n hn => hn.elim
  have held : (b.underWay key).outlet? slot =
      some { o with holds := o.holds + b.audience.count slot } := by
    have same : (b.setOut key).outlet? slot = some o := ho
    rw [underWay, outlet?_foldl_hold, same, Option.map_some]
  obtain ⟨o', ho', holds, busy, -⟩ := kept.outlet held
  refine ⟨o', ho', ?_, busy⟩
  simp only [haudience, List.count_append] at holds
  omega

/-- What was plugged in during a dispatch is not busy. -/
theorem new_atTurn (key : UInt8) {before rest : List Slot}
    (haudience : b.audience = before ++ rest) (hnone : b.outlet? slot = none) {o' : Outlet}
    (ho' : (b.atTurn play key before).outlet? slot = some o') : o'.busy = false := by
  have kept : Kept (fun _ => False) before (b.underWay key) (b.atTurn play key before) :=
    .atTurn hplay haudience not_false fun n hn => hn.elim
  refine kept.new ?_ ho'
  have same : (b.setOut key).outlet? slot = none := hnone
  rw [underWay, outlet?_foldl_hold, same, Option.map_none]

theorem Kept.press (b : Board) (key : UInt8) : Kept (· < b.dispatches) [] b (b.press play key) := by
  cases hkey : isKey key with
  | false =>
    rw [press_of_not_isKey hkey]
    have told : Kept (· < b.dispatches) [] b (b.tell (.pressed key)) :=
      .tell (by simp [Event.number?])
    exact told.trans (.report _ _)
  | true =>
    cases hheld : b.held.isDown key with
    | true =>
      rw [press_of_down hkey hheld]
      exact .tell (by simp [Event.number?])
    | false =>
      rw [press_of_up hkey hheld]
      have turns : Kept (· < b.dispatches) b.audience (b.underWay key)
          (b.atTurn play key b.audience) := by
        refine Kept.atTurn hplay (List.append_nil _).symm (lt_irrefl _) fun n hn => ?_
        exact Nat.lt_trans hn (b.dispatches_lt_underWay key)
      exact ((Kept.setOut b key).trans turns.of_held).trans (.tell_of_number rfl (lt_irrefl _))

theorem Kept.pressBusy (hplugged : (b.plugged? slot).isSome = true) (hfree : b.isBusy slot = false)
    (key : UInt8) : Kept (· < b.dispatches) [] b (b.pressBusy play slot key) := by
  have alive : ∀ other ∈ [slot], b.isAlive other = true := by
    intro other hother
    rw [List.mem_singleton.mp hother]
    exact isAlive_of_plugged? hplugged
  have free : (b.hold slot).isBusy slot = false := (b.isBusy_foldl_hold [slot] slot).trans hfree
  have held : (b.hold slot).Holds [slot] := holds_foldl_hold alive
  have used : Kept (· < b.dispatches) [] ((b.hold slot).setBusy slot true)
      (((b.hold slot).setBusy slot true).press play key) :=
    Kept.press hplay ((b.hold slot).setBusy slot true) key
  have pressed := used.of_busy free
  have gaveBack : Kept (· < b.dispatches) [slot] ([slot].foldl Board.hold b)
      (b.pressBusy play slot key) :=
    pressed.trans (.letGo (pressed.holds held))
  exact gaveBack.of_held

/-! ## Actions -/

/-- An action leaves behind what it found, if the responses to it do. -/
theorem Kept.perform (b : Board) (action : Action) :
    Kept (· < b.dispatches) [] b (b.perform play action).2 := by
  cases action with
  | press key => exact .press hplay b key
  | pressBusy slot key =>
    simp only [Board.perform]
    split
    · next hplugged =>
      split
      · exact .refl b
      · next free => exact .pressBusy hplay hplugged (Bool.eq_false_iff.mpr free) key
    · exact .refl b
  | release key =>
    have told : Kept (· < b.dispatches) [] b (b.tell (.released key)) :=
      .tell (by simp [Event.number?])
    simp only [Board.perform, Board.release]
    split
    · exact told.trans (.of_outlets_eq rfl le_rfl fun _ _ => rfl)
    · exact told.trans (.report _ _)
  | _ =>
    refine (chores_perform ?_ b).kept
    trivial

end Responses

/-- A course of actions leaves behind what it found. -/
theorem Course.kept (h : Course b c) : Kept (· < b.dispatches) [] b c := by
  induction h with
  | stay b => exact .refl b
  | @act b c play hplay action _ ihplay ih =>
    have acted := Kept.perform ihplay c action
    exact ih.trans (acted.mono fun _ hn => hn.trans_le ih.dispatches_le)
  | note hnote _ ih => exact ih.trans (.tell (by simp [hnote.number?_eq]))

theorem Responsive.kept {play : Play} (h : Responsive play) (slot : Slot) (script : List Action)
    (d : Board) : Kept (· < d.dispatches) [] d (play slot script d) :=
  (h slot script d).kept

/-! ## Who is busy is held on to -/

/-- Whether somebody holds on to whatever is busy. -/
def BusyHeld (b : Board) : Prop := ∀ slot o, b.outlet? slot = some o → o.busy = true → 0 < o.holds

theorem Kept.busyHeld (h : Kept settled [] b c) (hb : b.BusyHeld) : c.BusyHeld := by
  intro slot o' ho' busy
  cases ho : b.outlet? slot with
  | none => simp [h.new ho ho'] at busy
  | some o =>
    obtain ⟨other, hother, holds, same, -⟩ := h.outlet ho
    rw [ho', Option.some.injEq] at hother
    subst hother
    have positive := hb slot o ho (same ▸ busy)
    rw [List.count_nil, Nat.add_zero] at holds
    omega

/-- Whoever uses a device holds on to it first. -/
theorem BusyHeld.borrow (h : b.BusyHeld) (slot : Slot) :
    ((b.hold slot).setBusy slot true).BusyHeld := by
  intro other o' ho' busy
  unfold setBusy hold at ho'
  rw [outlet?_modify, outlet?_modify, Option.map_map] at ho'
  obtain ⟨o, ho, rfl⟩ := Option.map_eq_some_iff.mp ho'
  by_cases same : slot = other
  · simp [same]
  · simp only [Function.comp_apply, same, ↓reduceIte] at busy ⊢
    exact h other o ho busy

/-- So does a dispatch that lets a listener respond. -/
theorem BusyHeld.response (h : b.BusyHeld) {play : Play} (hplay : Responsive play) (key : UInt8)
    {before after : List Slot} (haudience : b.audience = before ++ slot :: after) :
    ((b.atTurn play key before).heardBy b.dispatches key slot).BusyHeld := by
  intro other o' ho' busy
  unfold heardBy setBusy at ho'
  rw [outlet?_modify] at ho'
  obtain ⟨now, hnow, rfl⟩ := Option.map_eq_some_iff.mp ho'
  replace hnow : (b.atTurn play key before).outlet? other = some now := hnow
  by_cases same : slot = other
  · subst same
    have there : slot ∈ b.audience := by simp [haudience]
    obtain ⟨o, ho, -⟩ := isAlive_eq_true_iff.mp (isAlive_of_mem_audience there)
    obtain ⟨o', ho', holds, -⟩ := outlet_atTurn hplay.kept key haudience ho
    rw [hnow, Option.some.injEq] at ho'
    rw [List.count_cons_self] at holds
    simp only [↓reduceIte, ho']
    omega
  · simp only [same, ↓reduceIte] at busy ⊢
    cases ho : b.outlet? other with
    | none => simp [new_atTurn hplay.kept key haudience ho hnow] at busy
    | some o =>
      obtain ⟨o', ho', holds, unchanged⟩ := outlet_atTurn hplay.kept key haudience ho
      rw [hnow, Option.some.injEq] at ho'
      subst ho'
      have positive := h other o ho (unchanged ▸ busy)
      omega

/-- At every moment, somebody holds on to whatever is busy. -/
theorem Moment.busyHeld (h : b.Moment) : b.BusyHeld := by
  induction h with
  | start pruning =>
    intro slot o ho
    cases ho
  | course _ hc ih => exact hc.kept.busyHeld ih
  | @borrow b slot _ _ _ ih => exact ih.borrow slot
  | response _ hplay _ _ haudience _ _ ih => exact ih.response hplay _ haudience

end Board

end Chip8
