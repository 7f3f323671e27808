import Chip8.Proofs.RegistrationSteps

/-!
# Registrations of the dead

The keypad may take a device off the list at the moment of its death, or leave it there until the
next dispatch sets out. A board that does the latter lags behind one that does the former: it has
registrations of dead devices, too. That is the only difference between them, but for what the
journal says of tickets that nobody holds any more, and all that is done to both boards keeps it so.

* `Event.isStray`: what the journal says of such tickets.
* `Board.Lags`: one board is like another but for the registrations of the dead.
* `Lags.subscribe`, `Lags.cancel`: registering and unregistering on both boards.
* `Lags.lessen`: a device that dies on both boards.
* `Lags.press`, `Lags.perform`: presses and actions on both boards, which give the same answers.
-/

namespace Chip8

/-- Whether an event tells of a ticket that was given back and that nobody holds. -/
def Event.isStray : Event → Bool
  | .reported (.notRegistered _) => true
  | _ => false

namespace Registry

variable {r : Registry} {alive alive' : Slot → Bool} {slot : Slot}

/-! ## Lists without the dead -/

theorem prune_congr (h : ∀ entry ∈ r.entries, alive entry.slot = alive' entry.slot) :
    r.prune alive = r.prune alive' := by
  unfold prune
  rw [List.filter_congr h]

theorem prune_prune (r : Registry) (alive : Slot → Bool) :
    (r.prune alive).prune alive = r.prune alive := by
  unfold prune
  simp only [List.filter_filter, Bool.and_self]

/-- Taking off one that has just died, when the others that are dead are off already. -/
theorem forget_prune (hslot : alive' slot = false)
    (hothers : ∀ other, slot ≠ other → alive' other = alive other) :
    (r.prune alive).forget slot = r.prune alive' := by
  unfold forget prune
  simp only [List.filter_filter]
  congr 1
  refine List.filter_congr fun entry _ => ?_
  by_cases same : slot = entry.slot
  · simp [← same, hslot]
  · simp [hothers _ same, Ne.symm same]

/-- Giving a ticket back comes to the same before and after the dead are taken off. -/
theorem Ordered.unregister_prune (h : r.Ordered) (alive : Slot → Bool) (ticket : Ticket) :
    ((r.prune alive).unregister ticket).1 = (r.unregister ticket).1.prune alive := by
  have entries : ((r.prune alive).unregister ticket).1.entries =
      ((r.unregister ticket).1.prune alive).entries := by
    rw [(h.prune alive).entries_unregister]
    unfold Registry.prune
    simp only [h.entries_unregister, List.filter_filter, Bool.and_comm]
  have next : ((r.prune alive).unregister ticket).1.next =
      ((r.unregister ticket).1.prune alive).next :=
    (next_unregister _ ticket).trans (next_unregister r ticket).symm
  exact congrArg₂ Registry.mk entries next

/-- So does registering somebody alive. -/
theorem register_prune (hslot : alive slot = true) :
    (r.prune alive).register slot =
      ((r.register slot).1, (r.register slot).2.1.prune alive, (r.register slot).2.2) := by
  have found : (r.prune alive).find? slot = r.find? slot := by
    unfold find? prune
    rw [List.find?_filter]
    refine congrArg (List.find? · r.entries) (funext fun entry => ?_)
    by_cases same : entry.slot = slot
    · simp [same, hslot]
    · simp [same]
  unfold register
  rw [found]
  cases r.find? slot with
  | some entry => rfl
  | none => simp [prune, hslot]

theorem isStray_of_mem_unregister {ticket : Ticket} :
    ∀ entry ∈ (r.unregister ticket).2, (Event.reported entry).isStray = true := by
  unfold unregister
  split
  · exact fun entry h => absurd h List.not_mem_nil
  · intro entry h
    rw [List.mem_singleton.mp h]
    rfl

end Registry

namespace Board

/-- Two boards are the same, but for the registrations of dead devices on the first one and for what
    the journal says of tickets that nobody holds. -/
structure Lags (b c : Board) : Prop where
  held : c.held = b.held
  outlets : c.outlets = b.outlets
  dispatches : c.dispatches = b.dispatches
  /-- The second board has registered whoever is registered on the first one and alive. -/
  registry : c.registry = b.registry.prune b.isAlive
  late : b.pruning = .atDispatch
  prompt : c.pruning = .atDeath
  history : (c.history.filter fun event => !event.isStray) =
    b.history.filter fun event => !event.isStray
  ordered : b.registry.Ordered
  known {entry : Registration} (h : entry ∈ b.registry.entries) : entry.slot < b.outlets.length

variable {b c : Board} {slot : Slot}

theorem lags_empty : Lags (empty .atDispatch) (empty .atDeath) where
  held := rfl
  outlets := rfl
  dispatches := rfl
  registry := rfl
  late := rfl
  prompt := rfl
  history := rfl
  ordered := Registry.ordered_empty
  known h := absurd h List.not_mem_nil

/-! ## What is the same -/

theorem Lags.outlet?_eq (h : Lags b c) (slot : Slot) : c.outlet? slot = b.outlet? slot :=
  congrArg (fun outlets : List Outlet => outlets[slot]?) h.outlets

theorem Lags.device?_eq (h : Lags b c) (slot : Slot) : c.device? slot = b.device? slot :=
  congrArg (Option.map _) (h.outlet?_eq slot)

theorem Lags.plugged?_eq (h : Lags b c) (slot : Slot) : c.plugged? slot = b.plugged? slot :=
  congrArg (Option.filter _) (h.outlet?_eq slot)

theorem Lags.machine?_eq (h : Lags b c) (slot : Slot) : c.machine? slot = b.machine? slot :=
  congrArg (Option.bind · _) (h.outlet?_eq slot)

theorem Lags.isBusy_eq (h : Lags b c) (slot : Slot) : c.isBusy slot = b.isBusy slot :=
  congrArg (Option.any _) (h.outlet?_eq slot)

theorem Lags.isAlive_eq (h : Lags b c) : c.isAlive = b.isAlive :=
  funext fun slot => congrArg (Option.any _) (h.outlet?_eq slot)

/-- The dead are not in the audience of a dispatch that sets out, whether they are registered or
    not. -/
theorem Lags.prune_eq (h : Lags b c) : c.registry.prune c.isAlive = b.registry.prune b.isAlive := by
  rw [h.registry, h.isAlive_eq, Registry.prune_prune]

theorem Lags.audience_eq (h : Lags b c) : c.audience = b.audience :=
  congrArg Registry.audience h.prune_eq

/-- Nor are they counted. -/
theorem Lags.listenerCount_eq (h : Lags b c) : c.listenerCount = b.listenerCount :=
  congrArg (fun r : Registry => r.entries.length) h.prune_eq

/-! ## Single parts of the boards -/

theorem Lags.tell (h : Lags b c) (event : Event) : Lags (b.tell event) (c.tell event) :=
  { h with
    history := by
      have before := h.history
      simp only [Board.tell, List.filter_cons, before] }

theorem Lags.report (h : Lags b c) (entries : List Entry) :
    Lags (b.report entries) (c.report entries) :=
  List.foldl_rel h fun _ _ _ _ lags => lags.tell _

theorem Lags.modify (h : Lags b c) {f : Outlet → Outlet}
    (hf : ∀ o, b.outlet? slot = some o → (f o).isAlive = o.isAlive) :
    Lags (b.modify slot f) (c.modify slot f) :=
  { h with
    outlets := congrArg (List.modify · slot f) h.outlets
    registry := by
      have same : (b.modify slot f).isAlive = b.isAlive := funext (isAlive_modify hf)
      rw [same]
      exact h.registry
    known := fun hentry => by
      have length : (b.modify slot f).outlets.length = b.outlets.length :=
        List.length_modify _ _ _
      rw [length]
      exact h.known hentry }

theorem Lags.setMachine (h : Lags b c) (slot : Slot) (m : Machine) :
    Lags (b.setMachine slot m) (c.setMachine slot m) :=
  h.modify fun _ _ => rfl

theorem Lags.setBusy (h : Lags b c) (slot : Slot) (busy : Bool) :
    Lags (b.setBusy slot busy) (c.setBusy slot busy) :=
  h.modify fun _ _ => rfl

theorem Lags.hold (h : Lags b c) (halive : b.isAlive slot = true) :
    Lags (b.hold slot) (c.hold slot) := by
  refine h.modify fun o ho => ?_
  rw [isAlive_of_outlet? ho] at halive
  rw [halive]
  simp [Outlet.isAlive]

theorem Lags.foldl_hold (h : Lags b c) {slots : List Slot}
    (halive : ∀ slot ∈ slots, b.isAlive slot = true) :
    Lags (slots.foldl Board.hold b) (slots.foldl Board.hold c) := by
  induction slots generalizing b c with
  | nil => exact h
  | cons slot rest ih =>
    obtain ⟨first, later⟩ := List.forall_mem_cons.mp halive
    exact ih (h.hold first) fun other hother => isAlive_hold (later other hother)

/-- A device is plugged into a slot that nobody was ever registered for. -/
theorem Lags.plug (h : Lags b c) (device : Device) :
    Lags (b.plug device).2 (c.plug device).2 :=
  { h with
    outlets := congrArg (· ++ [(⟨device, true, 0, false⟩ : Outlet)]) h.outlets
    registry := by
      refine h.registry.trans (Registry.prune_congr fun entry hentry => ?_)
      unfold isAlive
      rw [outlet?_plug, if_neg (h.known hentry).ne]
    known := fun hentry => by
      have length : (b.plug device).2.outlets.length = b.outlets.length + 1 := List.length_append
      rw [length]
      exact Nat.lt_succ_of_lt (h.known hentry) }

/-! ## Registrations -/

theorem Lags.setRegistry (h : Lags b c) {r r' : Registry} (hprune : r' = r.prune b.isAlive)
    (hordered : r.Ordered) (hknown : ∀ entry ∈ r.entries, entry.slot < b.outlets.length) :
    Lags { b with registry := r } { c with registry := r' } :=
  { h with registry := hprune, ordered := hordered, known := hknown _ }

/-- Whoever is registered on both boards is given the same ticket, if alive. -/
theorem Lags.subscribe (h : Lags b c) (halive : b.isAlive slot = true) :
    (c.subscribe slot).1 = (b.subscribe slot).1 ∧
      Lags (b.subscribe slot).2 (c.subscribe slot).2 := by
  have registered := Registry.register_prune (r := b.registry) halive
  rw [← h.registry] at registered
  have there : ∀ entry ∈ (b.registry.register slot).2.1.entries,
      entry.slot < b.outlets.length := by
    intro entry hentry
    rcases Registry.mem_register hentry with old | rfl
    · exact h.known old
    · obtain ⟨o, ho, -⟩ := isAlive_eq_true_iff.mp halive
      exact (List.getElem?_eq_some_iff.mp ho).1
  have lags : Lags { b with registry := (b.registry.register slot).2.1 }
      { c with registry := (c.registry.register slot).2.1 } :=
    h.setRegistry (congrArg (·.2.1) registered) (h.ordered.register slot) there
  have same : (c.registry.register slot).2.2 = (b.registry.register slot).2.2 :=
    congrArg (·.2.2) registered
  refine ⟨congrArg (·.1) registered, ?_⟩
  unfold Board.subscribe
  simp only [same]
  exact lags.report _

/-- What the journal says of tickets that nobody holds makes no difference. -/
theorem Lags.report_strays (h : Lags b c) {entries entries' : List Entry}
    (hb : ∀ entry ∈ entries, (Event.reported entry).isStray = true)
    (hc : ∀ entry ∈ entries', (Event.reported entry).isStray = true) :
    Lags (b.report entries) (c.report entries') := by
  unfold Board.report
  induction entries generalizing b with
  | nil =>
    induction entries' generalizing c with
    | nil => exact h
    | cons entry rest ih =>
      obtain ⟨first, later⟩ := List.forall_mem_cons.mp hc
      refine ih later ?_
      exact { h with history := by simpa [Board.tell, first] using h.history }
  | cons entry rest ih =>
    obtain ⟨first, later⟩ := List.forall_mem_cons.mp hb
    refine ih ?_ later
    exact { h with history := by simpa [Board.tell, first] using h.history }

theorem Lags.cancel (h : Lags b c) (ticket : Ticket) :
    Lags (b.cancel ticket) (c.cancel ticket) := by
  have registry : (c.registry.unregister ticket).1 =
      (b.registry.unregister ticket).1.prune b.isAlive := by
    rw [h.registry]
    exact h.ordered.unregister_prune _ ticket
  have lags : Lags { b with registry := (b.registry.unregister ticket).1 }
      { c with registry := (c.registry.unregister ticket).1 } :=
    h.setRegistry registry (h.ordered.unregister ticket)
      fun _ hentry => h.known ((b.registry.unregister_sublist ticket).subset hentry)
  exact lags.report_strays Registry.isStray_of_mem_unregister Registry.isStray_of_mem_unregister

theorem Lags.attachMachine (h : Lags b c) (halive : b.isAlive slot = true) (m : Machine) :
    Lags (b.attachMachine slot m) (c.attachMachine slot m) := by
  obtain ⟨ticket, lags⟩ := h.subscribe halive
  unfold Board.attachMachine
  simp only [ticket]
  exact lags.setMachine slot _

theorem Lags.detachMachine (h : Lags b c) (slot : Slot) (m : Machine) :
    Lags (b.detachMachine slot m) (c.detachMachine slot m) := by
  by_cases attached : ∃ ticket, m.subscription = .active ticket
  · obtain ⟨ticket, hticket⟩ := attached
    rw [detachMachine_of_active hticket, detachMachine_of_active hticket]
    exact (h.setMachine slot _).cancel ticket
  · have never := not_exists.mp attached
    rwa [detachMachine_of_not_active never, detachMachine_of_not_active never]

/-! ## Deaths -/

theorem bury_of_atDispatch (h : b.pruning = .atDispatch) (slot : Slot) : b.bury slot = b := by
  unfold bury
  rw [h]

theorem bury_of_atDeath (h : b.pruning = .atDeath) (slot : Slot) :
    b.bury slot = { b with registry := b.registry.forget slot } := by
  unfold bury
  rw [h]

/-- A device that loses one of those that keep it may die on both boards. On the second one it is
    taken off the list. -/
theorem Lags.lessen (h : Lags b c) (slot : Slot) {f : Outlet → Outlet}
    (hf : ∀ o, (f o).isAlive = true → o.isAlive = true) :
    Lags ((b.modify slot f).settle slot) ((c.modify slot f).settle slot) := by
  have outlets : (c.modify slot f).outlets = (b.modify slot f).outlets :=
    congrArg (List.modify · slot f) h.outlets
  have alive_eq := isAlive_of_outlets_eq outlets slot
  cases alive : (b.modify slot f).isAlive slot with
  | true =>
    have lags : Lags (b.modify slot f) (c.modify slot f) := by
      refine h.modify fun o ho => ?_
      rw [isAlive_of_outlet? (outlet?_modify_self ho f)] at alive
      rw [alive, hf o alive]
    rw [settle_of_isAlive alive, settle_of_isAlive (alive_eq.trans alive)]
    exact lags
  | false =>
    have forgotten : c.registry.forget slot = b.registry.prune (b.modify slot f).isAlive := by
      rw [h.registry]
      exact Registry.forget_prune alive fun other hne => isAlive_modify_of_ne hne f
    have buried : Lags ((b.modify slot f).bury slot) ((c.modify slot f).bury slot) := by
      rw [bury_of_atDispatch (b := b.modify slot f) h.late,
        bury_of_atDeath (b := c.modify slot f) h.prompt]
      exact { h with
        outlets := outlets
        registry := forgotten
        known := fun hentry => (h.known hentry).trans_eq (List.length_modify _ _ _).symm }
    have device_eq : (c.modify slot f).device? slot = (b.modify slot f).device? slot := by
      unfold device? outlet?
      rw [outlets]
    by_cases machine : ∃ m, (b.modify slot f).device? slot = some (.machine m)
    · obtain ⟨m, hm⟩ := machine
      rw [settle_of_machine alive hm,
        settle_of_machine (alive_eq.trans alive) (device_eq.trans hm)]
      exact buried.detachMachine slot m
    · have none := not_exists.mp machine
      rw [settle_of_no_machine alive none, settle_of_no_machine (alive_eq.trans alive)
        fun m hm => none m (device_eq.symm.trans hm)]
      exact buried

theorem Lags.letGo (h : Lags b c) (slot : Slot) : Lags (b.letGo slot) (c.letGo slot) := by
  refine h.lessen slot fun o alive => ?_
  simp only [Outlet.isAlive, Bool.or_eq_true, decide_eq_true_eq] at alive ⊢
  exact alive.imp_right fun held => Nat.lt_of_lt_of_le held (Nat.sub_le _ _)

theorem Lags.unplug (h : Lags b c) (slot : Slot) : Lags (b.unplug slot) (c.unplug slot) := by
  refine h.lessen slot fun o alive => ?_
  simp only [Outlet.isAlive, Bool.false_or, Bool.or_eq_true] at alive ⊢
  exact .inr alive

/-! ## Presses -/

theorem Lags.release (h : Lags b c) (key : UInt8) : Lags (b.release key) (c.release key) := by
  have told := h.tell (.released key)
  unfold Board.release
  simp only
  split
  · exact { told with held := congrArg (·.release key) h.held }
  · exact told.report _

/-- When a dispatch sets out, the dead are off the list of both boards. -/
theorem Lags.setOut (h : Lags b c) (key : UInt8) : Lags (b.setOut key) (c.setOut key) where
  held := congrArg (·.press key) h.held
  outlets := h.outlets
  dispatches := congrArg (· + 1) h.dispatches
  registry := h.prune_eq.trans (Registry.prune_prune _ _).symm
  late := h.late
  prompt := h.prompt
  history := by
    unfold Board.setOut
    rw [h.dispatches, h.audience_eq]
    exact ((h.tell (.pressed key)).tell (.dispatched b.dispatches key b.audience)).history
  ordered := h.ordered.prune _
  known hentry := h.known (List.mem_filter.mp hentry).1

theorem Lags.underWay (h : Lags b c) (key : UInt8) : Lags (b.underWay key) (c.underWay key) := by
  unfold Board.underWay
  rw [h.audience_eq]
  refine (h.setOut key).foldl_hold fun slot hslot => ?_
  have alive : b.isAlive slot = true := isAlive_of_mem_audience hslot
  exact alive

/-- Whether two ways of playing scripts do the same on boards that are the same but for the
    registrations of the dead. -/
def PlaysAlike (play play' : Play) : Prop :=
  ∀ slot script b c, Lags b c → Lags (play slot script b) (play' slot script c)

section Responses

variable {play play' : Play} (hplay : PlaysAlike play play')

include hplay

theorem Lags.turn (h : Lags b c) (number : ℕ) (key : UInt8) (slot : Slot) :
    Lags (Board.turn play number key b slot) (Board.turn play' number key c slot) := by
  cases hdevice : b.device? slot with
  | none =>
    have none : b.outlet? slot = none := Option.map_eq_none_iff.mp hdevice
    rw [turn_of_none none, turn_of_none ((h.outlet?_eq slot).trans none)]
    exact h.letGo slot
  | some device =>
    cases busy : b.isBusy slot with
    | true =>
      rw [turn_of_busy busy, turn_of_busy ((h.isBusy_eq slot).trans busy)]
      exact ((h.tell _).report _).letGo slot
    | false =>
      have heard : Lags (b.heardBy number key slot) (c.heardBy number key slot) :=
        (h.tell _).setBusy slot true
      have answered : Lags ((b.heardBy number key slot).respond play key slot device)
          ((c.heardBy number key slot).respond play' key slot device) := by
        cases device with
        | machine m => exact heard.setMachine slot _
        | script script => exact hplay slot script _ _ heard
      rw [turn_of_free hdevice busy, turn_of_free ((h.device?_eq slot).trans hdevice)
        ((h.isBusy_eq slot).trans busy), deliver_eq, deliver_eq]
      exact ((answered.setBusy slot false).tell _).letGo slot

theorem Lags.atTurn (h : Lags b c) (key : UInt8) (before : List Slot) :
    Lags (b.atTurn play key before) (c.atTurn play' key before) := by
  have turning (number : ℕ) {d e : Board} (hd : Lags d e) :
      Lags (before.foldl (Board.turn play number key) d)
        (before.foldl (Board.turn play' number key) e) := by
    induction before generalizing d e with
    | nil => exact hd
    | cons slot rest ih => exact ih (hd.turn hplay number key slot)
  unfold Board.atTurn
  rw [h.dispatches]
  exact turning _ (h.underWay key)

theorem Lags.press (h : Lags b c) (key : UInt8) : Lags (b.press play key) (c.press play' key) := by
  cases hkey : isKey key with
  | false =>
    rw [press_of_not_isKey hkey, press_of_not_isKey hkey]
    exact (h.tell _).report _
  | true =>
    have held : c.held.isDown key = b.held.isDown key := congrArg (·.isDown key) h.held
    cases hheld : b.held.isDown key with
    | true =>
      rw [press_of_down hkey hheld, press_of_down hkey (held.trans hheld)]
      exact h.tell _
    | false =>
      rw [press_of_up hkey hheld, press_of_up hkey (held.trans hheld), h.dispatches, h.audience_eq]
      exact (h.atTurn hplay key b.audience).tell _

theorem Lags.pressBusy (h : Lags b c) (halive : b.isAlive slot = true) (key : UInt8) :
    Lags (b.pressBusy play slot key) (c.pressBusy play' slot key) := by
  have pressed := ((h.hold halive).setBusy slot true).press hplay key
  exact (pressed.setBusy slot false).letGo slot

/-! ## Actions -/

omit hplay in
theorem Lags.attach (h : Lags b c) (slot : Slot) :
    (c.attach slot).1 = (b.attach slot).1 ∧ Lags (b.attach slot).2 (c.attach slot).2 := by
  unfold Board.attach
  rw [h.machine?_eq]
  cases hm : b.machine? slot with
  | none => exact ⟨rfl, h⟩
  | some m =>
    simp only
    split
    · exact ⟨rfl, h.attachMachine (isAlive_of_machine? hm) m⟩
    · exact ⟨rfl, h⟩

omit hplay in
/-- A machine may be used on both boards, or on neither. -/
theorem Lags.withMachine (h : Lags b c) (slot : Slot) {use use' : Machine → Answer × Board}
    (huse : ∀ m, (use' m).1 = (use m).1 ∧ Lags (use m).2 (use' m).2) :
    (c.withMachine slot use').1 = (b.withMachine slot use).1 ∧
      Lags (b.withMachine slot use).2 (c.withMachine slot use').2 := by
  unfold Board.withMachine
  rw [h.machine?_eq, h.isBusy_eq]
  cases b.machine? slot with
  | none => exact ⟨rfl, h⟩
  | some m =>
    simp only
    split
    · exact ⟨rfl, h⟩
    · exact huse m

/-- Every action gives the same answer on both boards, and keeps them the same but for the
    registrations of the dead. -/
theorem Lags.perform (h : Lags b c) (action : Action) :
    (c.perform play' action).1 = (b.perform play action).1 ∧
      Lags (b.perform play action).2 (c.perform play' action).2 := by
  cases action with
  | plugScript script =>
    have slot : c.outlets.length = b.outlets.length := congrArg List.length h.outlets
    exact ⟨congrArg Answer.slot slot, h.plug _⟩
  | plugMachine source subscribed =>
    have slot : c.outlets.length = b.outlets.length := congrArg List.length h.outlets
    have plugged := h.plug (.machine (.new source))
    simp only [Board.perform]
    refine ⟨congrArg Answer.slot slot, ?_⟩
    cases subscribed with
    | false => exact plugged
    | true =>
      have alive : (b.plug (.machine (.new source))).2.isAlive b.outlets.length = true := by
        simp [isAlive, outlet?, Board.plug, Outlet.isAlive]
      change Lags ((b.plug _).2.attachMachine b.outlets.length _)
        ((c.plug _).2.attachMachine c.outlets.length _)
      rw [slot]
      exact plugged.attachMachine alive _
  | attach slot => exact h.attach slot
  | detach slot => exact h.withMachine slot fun m => ⟨rfl, h.detachMachine slot m⟩
  | operate slot op =>
    refine h.withMachine slot fun m => ?_
    rw [h.held]
    exact ⟨rfl, (h.setMachine slot _).report _⟩
  | add slot =>
    simp only [Board.perform, h.plugged?_eq]
    split
    · next hplugged =>
      obtain ⟨ticket, lags⟩ := h.subscribe (isAlive_of_plugged? hplugged)
      exact ⟨congrArg Answer.ticket ticket, lags⟩
    · exact ⟨rfl, h⟩
  | remove ticket => exact ⟨rfl, h.cancel ticket⟩
  | unplug slot => exact ⟨rfl, h.unplug slot⟩
  | press key => exact ⟨rfl, h.press hplay key⟩
  | pressBusy slot key =>
    simp only [Board.perform, h.plugged?_eq, h.isBusy_eq]
    split
    · next hplugged =>
      split
      · exact ⟨rfl, h⟩
      · exact ⟨rfl, h.pressBusy hplay (isAlive_of_plugged? hplugged) key⟩
    · exact ⟨rfl, h⟩
  | release key => exact ⟨rfl, h.release key⟩
  | askKey key => exact ⟨congrArg (fun held : HeldKeys => Answer.truth (held.isDown key)) h.held, h⟩
  | askCount => exact ⟨congrArg Answer.count h.listenerCount_eq, h⟩

end Responses

end Board

end Chip8
