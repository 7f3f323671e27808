import Chip8.Proofs.Tickets

/-!
# Machines and their subscriptions

A machine remembers the ticket that it was given, and the keypad's list has the registration under
that ticket. As long as others leave the registrations of machines alone, the two agree at every
moment: a machine is attached if and only if it is on the list, once, under its ticket, and a dead
machine is not there. So the keypad's listeners are the attached machines and whatever else is
registered, and a dispatch is heard by the machines that were attached when it set out.

* `Board.Discreet`: actions that leave the registrations of machines alone.
* `Board.Matched`, `Board.Linked`: that list and machines agree.
* `Linked.dealing`, `MomentOf.linked`: every step keeps it so, and it holds at every moment.
* `Board.InStep`, `MomentOf.inStep`: what follows for counts, detaching, deaths and dispatches.
* `Board.DiscreetRun`, `MomentOf.after`: runs in which everybody is discreet.
-/

namespace Chip8

namespace Registry

variable {r : Registry} {slot : Slot} {ticket : Ticket} {entry : Registration}

theorem mem_forget : entry ∈ (r.forget slot).entries ↔ entry ∈ r.entries ∧ entry.slot ≠ slot := by
  simp [forget, prune]

theorem forget_of_not_mem (h : slot ∉ r.audience) : r.forget slot = r := by
  have others : (r.entries.filter fun entry => entry.slot != slot) = r.entries := by
    refine List.filter_eq_self.mpr fun entry hentry => ?_
    have other : entry.slot ≠ slot := fun same => h (same ▸ List.mem_map_of_mem hentry)
    simpa using other
  unfold forget prune
  rw [others]

/-- Nobody has two registrations. -/
theorem Ordered.eq_of_slot_eq (h : r.Ordered) {other : Registration} (hentry : entry ∈ r.entries)
    (hother : other ∈ r.entries) (same : entry.slot = other.slot) : entry = other :=
  List.inj_on_of_nodup_map h.nodup hentry hother same

/-- Giving back a ticket takes off the list the listener that holds it. -/
theorem Ordered.unregister_eq_forget (h : r.Ordered) (hentry : entry ∈ r.entries) :
    (r.unregister entry.ticket).1 = r.forget entry.slot := by
  have kept : (r.entries.filter fun other => other.ticket ≠ entry.ticket) =
      r.entries.filter fun other => other.slot != entry.slot := by
    refine List.filter_congr fun other hother => ?_
    by_cases same : other = entry
    · simp [same]
    · have ticket : other.ticket ≠ entry.ticket :=
        fun eq => same (h.eq_of_ticket_eq hother hentry eq)
      have slot : other.slot ≠ entry.slot := fun eq => same (h.eq_of_slot_eq hother hentry eq)
      simp [ticket, slot]
  rw [h.unregister_eq hentry]
  unfold Registry.forget Registry.prune
  rw [← kept, ← h.entries_unregister, h.unregister_eq hentry]

/-- A registered listener is on the list once. -/
theorem Ordered.filter_slot (h : r.Ordered) (hentry : entry ∈ r.entries) :
    (r.entries.filter fun other => other.slot = entry.slot) = [entry] := by
  have only : (r.entries.filter fun other => other.slot = entry.slot) =
      r.entries.filter fun other => other = entry := by
    refine List.filter_congr fun other hother => decide_eq_decide.mpr ?_
    exact ⟨h.eq_of_slot_eq hother hentry, congrArg Registration.slot⟩
  rw [only, List.filter_eq, List.count_eq_one_of_mem h.nodup_tickets.of_map hentry]
  rfl

theorem filter_slot_of_not_mem (h : slot ∉ r.audience) :
    (r.entries.filter fun other => other.slot = slot) = [] := by
  refine List.filter_eq_nil_iff.mpr fun entry hentry same => h ?_
  rw [← of_decide_eq_true same]
  exact List.mem_map_of_mem hentry

end Registry

/-- Whether a device is a machine that is attached. -/
def Device.isAttached : Device → Bool
  | .machine m => m.isAttached
  | .script _ => false

theorem Machine.isAttached_eq_true_iff {m : Machine} :
    m.isAttached = true ↔ ∃ ticket, m.subscription = .active ticket := by
  unfold isAttached
  cases m.subscription with
  | never => simp
  | active ticket => simp
  | ended => simp

namespace Board

/-- Whether the device in a slot is a machine that is attached. -/
def isAttached (b : Board) (slot : Slot) : Bool := (b.device? slot).any (·.isAttached)

/-- Whether an action leaves the registrations of machines alone: it neither registers a machine nor
    gives back a ticket that a machine holds. -/
def Discreet (b : Board) : Action → Prop
  | .add slot => b.subscription? slot = none
  | .remove ticket => ∀ entry ∈ b.registry.entries, entry.ticket = ticket →
      b.subscription? entry.slot = none
  | .plugScript _ | .plugMachine _ _ | .attach _ | .detach _ | .operate _ _ | .unplug _ | .press _
  | .pressBusy _ _ | .release _ | .askKey _ | .askCount => True

/-- A machine holds a ticket on the list if and only if it remembers it. -/
structure Matched (b : Board) : Prop where
  ordered : b.registry.Ordered
  known {entry : Registration} (h : entry ∈ b.registry.entries) : entry.slot < b.outlets.length
  link {slot : Slot} {subscription : Subscription}
      (h : b.subscription? slot = some subscription) (ticket : Ticket) :
    subscription = .active ticket ↔ ⟨ticket, slot⟩ ∈ b.registry.entries

/-- So it is, and no machine that is dead has a ticket. -/
structure Linked (b : Board) : Prop extends Matched b where
  alive {slot : Slot} {ticket : Ticket} (h : b.subscription? slot = some (.active ticket)) :
    b.isAlive slot = true

variable {b c : Board} {slot : Slot} {ticket : Ticket} {m : Machine}

/-! ## Taking a machine off the list -/

theorem Matched.of_eq (hb : b.Matched) (hregistry : c.registry = b.registry)
    (hlength : c.outlets.length = b.outlets.length)
    (hsubscription : ∀ slot, c.subscription? slot = b.subscription? slot) : c.Matched where
  ordered := hregistry ▸ hb.ordered
  known hentry := hlength ▸ hb.known (hregistry ▸ hentry)
  link {slot _} h ticket := by
    rw [hregistry]
    exact hb.link ((hsubscription slot).symm.trans h) ticket

theorem Matched.modify (hb : b.Matched) (slot : Slot) {f : Outlet → Outlet}
    (hdevice : ∀ o, (f o).device = o.device) : (b.modify slot f).Matched :=
  hb.of_eq rfl (List.length_modify _ _ _) (subscription?_modify fun o _ => by rw [hdevice])

theorem Matched.not_mem_audience (hb : b.Matched) {subscription : Subscription}
    (h : b.subscription? slot = some subscription)
    (hnot : ∀ ticket, subscription ≠ .active ticket) : slot ∉ b.registry.audience := by
  intro there
  obtain ⟨⟨ticket, _⟩, hentry, rfl⟩ := List.mem_map.mp there
  exact hnot ticket ((hb.link h ticket).mpr hentry)

/-- A device may go off the list if it is no machine that remembers its ticket. -/
theorem Matched.forget (hb : b.Matched) (h : Apart slot b c)
    (hregistry : c.registry = b.registry.forget slot)
    (hslot : ∀ ticket, c.subscription? slot ≠ some (.active ticket)) : c.Matched where
  ordered := hregistry ▸ hb.ordered.prune _
  known hentry := h.length ▸ hb.known (Registry.mem_forget.mp (hregistry ▸ hentry)).1
  link {other subscription} hother ticket := by
    rw [hregistry, Registry.mem_forget]
    by_cases same : slot = other
    · subst same
      constructor
      · rintro rfl
        exact absurd hother (hslot ticket)
      · exact fun forgotten => absurd rfl forgotten.2
    · have linked := hb.link ((h.subscription same).symm.trans hother) ticket
      rw [linked]
      exact (and_iff_left (Ne.symm same)).symm

/-- Detaching a machine takes it off the list, and nobody else. -/
theorem Matched.registry_detachMachine (hb : b.Matched) (h : b.device? slot = some (.machine m)) :
    (b.detachMachine slot m).registry = b.registry.forget slot := by
  have hsubscription : b.subscription? slot = some m.subscription := subscription?_of_device? h
  by_cases attached : ∃ ticket, m.subscription = .active ticket
  · obtain ⟨ticket, hticket⟩ := attached
    have hentry := (hb.link hsubscription ticket).mp hticket
    rw [detachMachine_of_active hticket, registry_cancel]
    exact hb.ordered.unregister_eq_forget hentry
  · have never := not_exists.mp attached
    rw [detachMachine_of_not_active never,
      Registry.forget_of_not_mem (hb.not_mem_audience hsubscription never)]

/-- So does its death. -/
theorem Matched.registry_settle (hb : b.Matched) (dead : b.isAlive slot = false)
    (h : b.device? slot = some (.machine m)) :
    (b.settle slot).registry = b.registry.forget slot := by
  rw [settle_of_machine dead h]
  rcases b.bury_cases slot with same | forgotten
  · rw [same]
    exact hb.registry_detachMachine h
  · rw [forgotten]
    by_cases attached : ∃ ticket, m.subscription = .active ticket
    · -- It is off the list already, and nobody else has its ticket.
      obtain ⟨ticket, hticket⟩ := attached
      have hentry := (hb.link (subscription?_of_device? h) ticket).mp hticket
      have absent : ∀ entry ∈ (b.registry.forget slot).entries, entry.ticket ≠ ticket := by
        intro entry there same
        obtain ⟨old, other⟩ := Registry.mem_forget.mp there
        exact other (congrArg Registration.slot (hb.ordered.eq_of_ticket_eq old hentry same))
      rw [detachMachine_of_active hticket, registry_cancel]
      exact congrArg (·.1) (Registry.unregister_of_absent absent)
    · rw [detachMachine_of_not_active (not_exists.mp attached)]

/-! ## What the steps keep -/

/-- A device that died has no ticket any more. -/
theorem subscription?_settle_ne (dead : b.isAlive slot = false) (ticket : Ticket) :
    (b.settle slot).subscription? slot ≠ some (.active ticket) := by
  by_cases machine : ∃ m, b.device? slot = some (.machine m)
  · obtain ⟨m, hm⟩ := machine
    rw [settle_of_machine dead hm]
    exact subscription?_detachMachine_ne ((b.device?_bury slot slot).trans hm) ticket
  · rw [settle_of_no_machine dead (not_exists.mp machine),
      subscription?_of_outlets_eq (outlets_bury b slot)]
    intro active
    obtain ⟨device, hdevice, hactive⟩ := Option.bind_eq_some_iff.mp active
    cases device with
    | machine m => exact machine ⟨m, hdevice⟩
    | script script => cases hactive

theorem Matched.settle (hb : b.Matched) (slot : Slot) : (b.settle slot).Matched := by
  cases dead : b.isAlive slot with
  | true => rwa [settle_of_isAlive dead]
  | false =>
    have gone : (b.settle slot).registry = b.registry.forget slot → (b.settle slot).Matched :=
      fun registry => hb.forget (.settle b slot) registry (subscription?_settle_ne dead)
    by_cases machine : ∃ m, b.device? slot = some (.machine m)
    · obtain ⟨m, hm⟩ := machine
      exact gone (hb.registry_settle dead hm)
    · have settled := settle_of_no_machine dead (not_exists.mp machine)
      rcases b.bury_cases slot with same | forgotten
      · rwa [settled, same]
      · exact gone (by rw [settled, forgotten])

/-- When a device is settled, everything agrees again. -/
theorem Matched.linked_settle (hb : b.Matched) (halive : ∀ other ticket, slot ≠ other →
    b.subscription? other = some (.active ticket) → b.isAlive other = true) :
    (b.settle slot).Linked := by
  have settled := Apart.settle b slot
  refine ⟨hb.settle slot, fun {other ticket} h => ?_⟩
  rw [settled.alive]
  by_cases same : slot = other
  · subst same
    by_contra dead
    exact subscription?_settle_ne (Bool.eq_false_iff.mpr dead) ticket h
  · exact halive other ticket same ((settled.subscription same).symm.trans h)

theorem Linked.unmoved (hb : b.Linked) (h : Unmoved b c) : c.Linked where
  toMatched := hb.toMatched.of_eq h.registry h.length h.subscription
  alive {slot _} hactive := by
    rw [h.alive slot]
    exact hb.alive ((h.subscription slot).symm.trans hactive)

/-- A device that is plugged in has no ticket yet, and nobody has one in its name. -/
theorem Linked.plug (hb : b.Linked) {device : Device}
    (hdevice : ∀ ticket, device.subscription? ≠ some (.active ticket)) :
    (b.plug device).2.Linked := by
  have subscription (slot : Slot) : (b.plug device).2.subscription? slot =
      if slot = b.outlets.length then device.subscription? else b.subscription? slot := by
    rw [subscription?, device?, outlet?_plug]
    split
    · rfl
    · rfl
  refine ⟨⟨hb.ordered, fun {entry} hentry => ?_, fun {slot sub} h ticket => ?_⟩,
    fun {slot ticket} h => ?_⟩
  · have before := hb.known hentry
    have length : (b.plug device).2.outlets.length = b.outlets.length + 1 :=
      List.length_append
    rw [length]
    exact Nat.lt_succ_of_lt before
  · rw [subscription] at h
    split at h
    · next new =>
      subst new
      constructor
      · rintro rfl
        exact absurd h (hdevice ticket)
      · exact fun hentry => absurd (hb.known hentry) (lt_irrefl _)
    · exact hb.link h ticket
  · rw [subscription] at h
    split at h
    · exact absurd h (hdevice ticket)
    · next old =>
      rw [isAlive, outlet?_plug, if_neg old]
      exact hb.alive h

/-- A machine that is attached remembers the ticket under which it is registered. -/
theorem Linked.attach (hb : b.Linked) (hm : b.machine? slot = some m)
    (hnever : m.subscription = .never) : (b.attachMachine slot m).Linked := by
  have hdevice := device?_of_machine? hm
  have hsubscription : b.subscription? slot = some .never :=
    (subscription?_of_device? hdevice).trans (congrArg some hnever)
  have absent : slot ∉ b.registry.audience := hb.not_mem_audience hsubscription nofun
  have registered := Registry.register_of_not_mem absent
  have registry : (b.attachMachine slot m).registry =
      ⟨b.registry.entries ++ [⟨⟨b.registry.next⟩, slot⟩], b.registry.next + 1⟩ := by
    rw [registry_attachMachine, registered]
  have self : (b.attachMachine slot m).subscription? slot = some (.active ⟨b.registry.next⟩) := by
    have there : (b.subscribe slot).2.device? slot = some (.machine m) :=
      (device?_report _ _ _).trans hdevice
    have ticket : (b.subscribe slot).1 = ⟨b.registry.next⟩ := congrArg (·.1) registered
    rw [Board.attachMachine, subscription?_setMachine there, ticket]
  have apart := Apart.attachMachine b slot m
  have alive : b.isAlive slot = true := isAlive_of_machine? hm
  refine ⟨⟨?_, fun {entry} hentry => ?_, fun {other sub} h ticket => ?_⟩,
    fun {other ticket} h => ?_⟩
  · rw [registry_attachMachine]
    exact hb.ordered.register slot
  · rw [registry] at hentry
    rw [apart.length]
    rcases List.mem_append.mp hentry with old | new
    · exact hb.known old
    · obtain ⟨o, ho, -⟩ := isAlive_eq_true_iff.mp alive
      rw [List.mem_singleton.mp new]
      exact (List.getElem?_eq_some_iff.mp ho).1
  · rw [registry, List.mem_append, List.mem_singleton]
    by_cases same : slot = other
    · subst same
      rw [self, Option.some.injEq] at h
      have before : ⟨ticket, slot⟩ ∉ b.registry.entries := fun hentry =>
        absent (List.mem_map_of_mem hentry)
      simp only [← h, before, false_or, Subscription.active.injEq, Registration.mk.injEq, and_true]
      exact eq_comm
    · have linked := hb.link ((apart.subscription same).symm.trans h) ticket
      simp only [linked, Registration.mk.injEq, Ne.symm same, and_false, or_false]
  · rw [apart.alive]
    by_cases same : slot = other
    · exact same ▸ alive
    · exact hb.alive ((apart.subscription same).symm.trans h)

/-- Whoever is registered is not taken for a machine. -/
theorem Linked.add (hb : b.Linked) (halive : b.isAlive slot = true)
    (hnone : b.subscription? slot = none) : (b.subscribe slot).2.Linked := by
  have subscription := subscription?_of_outlets_eq (outlets_subscribe b slot)
  refine ⟨⟨?_, fun {entry} hentry => ?_, fun {other sub} h ticket => ?_⟩,
    fun {other ticket} h => ?_⟩
  · rw [registry_subscribe]
    exact hb.ordered.register slot
  · rw [registry_subscribe] at hentry
    rw [outlets_subscribe]
    rcases Registry.mem_register hentry with old | rfl
    · exact hb.known old
    · obtain ⟨o, ho, -⟩ := isAlive_eq_true_iff.mp halive
      exact (List.getElem?_eq_some_iff.mp ho).1
  · rw [subscription] at h
    have other_ne : other ≠ slot := by
      rintro rfl
      rw [hnone] at h
      cases h
    rw [hb.link h ticket, registry_subscribe]
    constructor
    · exact fun old => Registry.mem_register_of_mem old slot
    · intro hentry
      rcases Registry.mem_register hentry with old | new
      · exact old
      · exact absurd (congrArg Registration.slot new) other_ne
  · rw [isAlive_of_outlets_eq (outlets_subscribe b slot)]
    exact hb.alive ((subscription other).symm.trans h)

/-- Giving back a ticket that no machine holds takes no machine off the list. -/
theorem Linked.remove (hb : b.Linked) (h : ∀ entry ∈ b.registry.entries, entry.ticket = ticket →
    b.subscription? entry.slot = none) : (b.cancel ticket).Linked := by
  have subscription := subscription?_of_outlets_eq (outlets_cancel b ticket)
  have entries : (b.cancel ticket).registry.entries =
      b.registry.entries.filter fun entry => entry.ticket ≠ ticket := by
    rw [registry_cancel, hb.ordered.entries_unregister]
  refine ⟨⟨?_, fun {entry} hentry => ?_, fun {other sub} hother ticket' => ?_⟩,
    fun {other ticket'} hother => ?_⟩
  · rw [registry_cancel]
    exact hb.ordered.unregister ticket
  · rw [entries] at hentry
    rw [outlets_cancel]
    exact hb.known (List.mem_of_mem_filter hentry)
  · rw [subscription] at hother
    rw [hb.link hother ticket', entries, List.mem_filter]
    refine (and_iff_left_of_imp fun hentry => ?_).symm
    have foreign : ticket' ≠ ticket := by
      intro same
      rw [h _ hentry same] at hother
      cases hother
    simpa using foreign
  · rw [isAlive_of_outlets_eq (outlets_cancel b ticket)]
    exact hb.alive ((subscription other).symm.trans hother)

/-- No machine that is attached is dead, so none is taken off the list when a dispatch sets out. -/
theorem Linked.setOut (hb : b.Linked) (key : UInt8) : (b.setOut key).Linked where
  ordered := hb.ordered.prune _
  known hentry := hb.known (List.mem_of_mem_filter hentry)
  link {slot subscription} h ticket := by
    rw [hb.link h ticket]
    change _ ↔ _ ∈ b.registry.entries.filter _
    rw [List.mem_filter]
    refine (and_iff_left_of_imp fun hentry => ?_).symm
    have active := (hb.link h ticket).mpr hentry
    exact hb.alive (active ▸ h)
  alive hactive := hb.alive hactive

/-- Every step of discreet actions keeps machines and list in agreement. -/
theorem Linked.dealing (h : Dealing Discreet b c) (hb : b.Linked) : c.Linked := by
  cases h with
  | unmoved h => exact hb.unmoved h
  | plug h => exact hb.plug h
  | attach hm hnever => exact hb.attach hm hnever
  | @detach slot m hm =>
    have apart := Apart.detachMachine b slot m
    have ended := subscription?_detachMachine_ne hm
    refine ⟨hb.forget apart (hb.registry_detachMachine hm) ended, fun {other ticket} h => ?_⟩
    by_cases same : slot = other
    · exact absurd (same ▸ h) (ended ticket)
    · rw [apart.alive]
      exact hb.alive ((apart.subscription same).symm.trans h)
  | add halive hnone => exact hb.add halive hnone
  | remove h => exact hb.remove h
  | @lessen slot f hdevice =>
    refine (hb.toMatched.modify slot hdevice).linked_settle fun other ticket hne hactive => ?_
    rw [isAlive_modify_of_ne hne]
    exact hb.alive ((subscription?_modify_of_ne hne f).symm.trans hactive)
  | setOut key => exact hb.setOut key

/-- So they agree at every moment. -/
theorem MomentOf.linked (h : MomentOf Discreet b) : b.Linked := by
  refine h.invariant (P := Linked) (fun pruning => ?_) Linked.dealing
  exact ⟨⟨Registry.ordered_empty, nofun, nofun⟩, nofun⟩

/-! ## What follows -/

theorem isAttached_eq_true_iff :
    b.isAttached slot = true ↔ ∃ ticket, b.subscription? slot = some (.active ticket) := by
  unfold isAttached subscription?
  cases b.device? slot with
  | none => simp
  | some device =>
    cases device with
    | script script => simp [Device.isAttached, Device.subscription?]
    | machine m => simp [Device.isAttached, Device.subscription?, Machine.isAttached_eq_true_iff]

/-- A machine is registered if and only if it is attached. -/
theorem Matched.mem_audience_iff (hb : b.Matched) (h : b.device? slot = some (.machine m)) :
    slot ∈ b.registry.audience ↔ m.isAttached = true := by
  have hsubscription : b.subscription? slot = some m.subscription := subscription?_of_device? h
  rw [Machine.isAttached_eq_true_iff]
  constructor
  · intro there
    obtain ⟨⟨ticket, _⟩, hentry, rfl⟩ := List.mem_map.mp there
    exact ⟨ticket, (hb.link hsubscription ticket).mpr hentry⟩
  · rintro ⟨ticket, hticket⟩
    exact List.mem_map_of_mem ((hb.link hsubscription ticket).mp hticket)

/-- The registered listeners that are alive and machines are the attached machines. -/
theorem Linked.count_machines (hb : b.Linked) :
    (b.registry.entries.filter fun entry =>
        b.isAlive entry.slot && (b.subscription? entry.slot).isSome).length =
      ((List.range b.outlets.length).filter fun slot =>
        b.isAlive slot && b.isAttached slot).length := by
  -- Neither list has a slot twice, so they need only have the same ones.
  have same : ((b.registry.entries.filter fun entry =>
      b.isAlive entry.slot && (b.subscription? entry.slot).isSome).map (·.slot)).Perm
        ((List.range b.outlets.length).filter fun slot => b.isAlive slot && b.isAttached slot) := by
    refine (List.perm_ext_iff_of_nodup ?_ (List.nodup_range.filter _)).mpr fun slot => ?_
    · exact hb.ordered.nodup.sublist (List.filter_sublist.map _)
    · simp only [List.mem_map, List.mem_filter, List.mem_range, Bool.and_eq_true,
        isAttached_eq_true_iff, Option.isSome_iff_exists]
      constructor
      · rintro ⟨⟨ticket, slot⟩, ⟨hentry, alive, subscription, h⟩, rfl⟩
        have active := (hb.link h ticket).mpr hentry
        exact ⟨hb.known hentry, alive, ticket, active ▸ h⟩
      · rintro ⟨-, alive, ticket, h⟩
        exact ⟨⟨ticket, slot⟩, ⟨(hb.link h ticket).mp rfl, alive, _, h⟩, rfl⟩
  rw [← same.length_eq, List.length_map]

/-- The listeners are the attached machines and the others. -/
theorem Linked.listenerCount_eq (hb : b.Linked) : b.listenerCount =
    ((List.range b.outlets.length).filter fun slot => b.isAlive slot && b.isAttached slot).length +
      (b.registry.entries.filter fun entry =>
        b.isAlive entry.slot && (b.subscription? entry.slot).isNone).length := by
  have split := (b.registry.entries.filter fun entry => b.isAlive entry.slot)
    |>.length_eq_length_filter_add fun entry => (b.subscription? entry.slot).isSome
  simp only [List.filter_filter, Option.not_isSome, Bool.and_comm] at split
  unfold listenerCount Registry.count
  rw [split, ← hb.count_machines]

theorem heard_mem_dispatchEvents_iff {key : UInt8} :
    Event.heard b.dispatches slot key ∈ b.dispatchEvents key ↔
      slot ∈ b.audience ∧ b.isBusy slot = false := by
  have turn (other : Slot) : Event.heard b.dispatches slot key ∈ b.turnEvents key other ↔
      other = slot ∧ b.isBusy slot = false := by
    unfold turnEvents
    cases busy : b.isBusy other with
    | true =>
      simp only [↓reduceIte, List.mem_singleton, reduceCtorEq, false_iff]
      rintro ⟨rfl, free⟩
      exact Bool.false_ne_true (free.symm.trans busy)
    | false =>
      simp only [Bool.false_eq_true, ↓reduceIte, List.mem_cons, Event.heard.injEq, true_and,
        and_true, reduceCtorEq, List.not_mem_nil, or_false]
      exact ⟨fun same => ⟨same.symm, same ▸ busy⟩, fun same => same.1.symm⟩
  simp [dispatchEvents, turn]

/-- What follows when list and machines agree. -/
structure InStep (b : Board) : Prop where
  /-- A live machine is attached if and only if it is on the list once, under the ticket that it
      remembers. -/
  attached {slot : Slot} {m : Machine} (h : b.device? slot = some (.machine m))
      (halive : b.isAlive slot = true) :
    m.isAttached = true ↔ ∃ ticket, m.subscription = .active ticket ∧
      (b.registry.entries.filter fun entry => entry.slot = slot) = [⟨ticket, slot⟩]
  /-- Otherwise it is not on the list at all. -/
  detached {slot : Slot} {m : Machine} (h : b.device? slot = some (.machine m))
      (hnot : m.isAttached = false) :
    (b.registry.entries.filter fun entry => entry.slot = slot) = []
  /-- Neither is a dead machine, which is not attached. -/
  dead {slot : Slot} {m : Machine} (h : b.device? slot = some (.machine m))
      (hdead : b.isAlive slot = false) :
    m.isAttached = false ∧ (b.registry.entries.filter fun entry => entry.slot = slot) = []
  /-- The listeners are the attached machines that are alive, and the registrations of others that
      are. -/
  count : b.listenerCount =
    ((List.range b.outlets.length).filter fun slot => b.isAlive slot && b.isAttached slot).length +
      (b.registry.entries.filter fun entry =>
        b.isAlive entry.slot && (b.subscription? entry.slot).isNone).length
  /-- Detaching a machine, attached or not, takes its registration off the list and no other; -/
  detach {slot : Slot} {m : Machine} (h : b.device? slot = some (.machine m)) :
    (b.detachMachine slot m).registry = b.registry.forget slot
  /-- emptying its slot does if nothing holds on to it, -/
  unplug {slot : Slot} {o : Outlet} {m : Machine} (ho : b.outlet? slot = some o)
      (hm : o.device = .machine m) :
    (b.unplug slot).registry = if o.holds = 0 then b.registry.forget slot else b.registry
  /-- and so does letting go of it if nothing else keeps it. -/
  letGo {slot : Slot} {o : Outlet} {m : Machine} (ho : b.outlet? slot = some o)
      (hm : o.device = .machine m) :
    (b.letGo slot).registry =
      if o.plugged = true ∨ 1 < o.holds then b.registry else b.registry.forget slot
  /-- Operations on machines, resets among them, leave subscriptions and registrations alone. -/
  operate (slot : Slot) (op : Machine.Op) : (b.operate slot op).2.registry = b.registry ∧
    ∀ other, (b.operate slot op).2.subscription? other = b.subscription? other
  /-- If a dispatch sets out now, its audience has the machines that are attached, -/
  invited {slot : Slot} {m : Machine} (h : b.device? slot = some (.machine m)) :
    slot ∈ b.audience ↔ m.isAttached = true
  /-- and those of them hear the key that are not busy at their turn. -/
  heard {slot : Slot} {m : Machine} (h : b.device? slot = some (.machine m)) {play : Play}
      {key : UInt8} (hplay : Responsive play) (hkey : isKey key = true)
      (hup : b.held.isDown key = false) :
    Event.heard b.dispatches slot key ∈ (b.press play key).eventsOf b.dispatches ↔
      m.isAttached = true ∧ ∃ before after, b.audience = before ++ slot :: after ∧
        (b.atTurn play key before).isBusy slot = false
  /-- A machine that is plugged in during the dispatch does not hear it, attached or not. -/
  newcomer {slot : Slot} (h : b.outlet? slot = none) {play : Play} {key : UInt8}
      (hplay : Responsive play) (hkey : isKey key = true) (hup : b.held.isDown key = false) :
    Event.heard b.dispatches slot key ∉ (b.press play key).eventsOf b.dispatches

/-- What becomes of the registrations when a machine loses one of those that keep it. -/
theorem Matched.registry_lessen (hb : b.Matched) {o : Outlet} (ho : b.outlet? slot = some o)
    (hm : o.device = .machine m) {f : Outlet → Outlet} (hdevice : ∀ o, (f o).device = o.device) :
    ((b.modify slot f).settle slot).registry =
      if (f o).isAlive = true then b.registry else b.registry.forget slot := by
  have after : (b.modify slot f).outlet? slot = some (f o) := outlet?_modify_self ho f
  have machine : (b.modify slot f).device? slot = some (.machine m) := by
    rw [device?_of_outlet? after, hdevice, hm]
  have lessened := hb.modify slot hdevice
  cases alive : (f o).isAlive with
  | true =>
    rw [settle_of_isAlive ((isAlive_of_outlet? after).trans alive), if_pos rfl]
    rfl
  | false =>
    rw [lessened.registry_settle ((isAlive_of_outlet? after).trans alive) machine,
      if_neg Bool.false_ne_true]
    rfl

theorem Matched.registry_unplug (hb : b.Matched) {o : Outlet} (ho : b.outlet? slot = some o)
    (hm : o.device = .machine m) :
    (b.unplug slot).registry = if o.holds = 0 then b.registry.forget slot else b.registry := by
  have alive : ({ o with plugged := false } : Outlet).isAlive = true ↔ o.holds ≠ 0 := by
    simp only [Outlet.isAlive, Bool.false_or, decide_eq_true_eq]
    omega
  unfold Board.unplug
  rw [hb.registry_lessen ho hm, if_congr alive rfl rfl, ite_not]
  exact fun _ => rfl

theorem Matched.registry_letGo (hb : b.Matched) {o : Outlet} (ho : b.outlet? slot = some o)
    (hm : o.device = .machine m) : (b.letGo slot).registry =
      if o.plugged = true ∨ 1 < o.holds then b.registry else b.registry.forget slot := by
  have alive : ({ o with holds := o.holds - 1 } : Outlet).isAlive = true ↔
      o.plugged = true ∨ 1 < o.holds := by
    simp only [Outlet.isAlive, Bool.or_eq_true, decide_eq_true_eq]
    exact or_congr_right (by omega)
  unfold Board.letGo
  rw [hb.registry_lessen ho hm, if_congr alive rfl rfl]
  exact fun _ => rfl

/-- A machine that is attached is alive. -/
theorem Linked.alive_of_isAttached (hb : b.Linked) (h : b.device? slot = some (.machine m))
    (attached : m.isAttached = true) : b.isAlive slot = true := by
  obtain ⟨ticket, hticket⟩ := Machine.isAttached_eq_true_iff.mp attached
  exact hb.alive ((subscription?_of_device? h).trans (congrArg some hticket))

theorem Linked.invited (hb : b.Linked) (h : b.device? slot = some (.machine m)) :
    slot ∈ b.audience ↔ m.isAttached = true := by
  rw [Board.mem_audience_iff, hb.toMatched.mem_audience_iff h]
  exact and_iff_left_of_imp (hb.alive_of_isAttached h)

theorem Linked.heard (hb : b.Linked) (h : b.device? slot = some (.machine m)) {play : Play}
    {key : UInt8} (out : b.SetsOut play key) :
    Event.heard b.dispatches slot key ∈ (b.press play key).eventsOf b.dispatches ↔
      m.isAttached = true ∧ ∃ before after, b.audience = before ++ slot :: after ∧
        (b.atTurn play key before).isBusy slot = false := by
  rw [out.eventsOf_press, heard_mem_dispatchEvents_iff, hb.invited h]
  refine and_congr_right fun attached => ?_
  constructor
  · intro free
    obtain ⟨before, after, haudience⟩ := List.append_of_mem ((hb.invited h).mpr attached)
    exact ⟨before, after, haudience, (out.isBusy_atTurn haudience).trans free⟩
  · rintro ⟨before, after, haudience, free⟩
    exact (out.isBusy_atTurn haudience).symm.trans free

/-- Nobody hears the key of a dispatch that set out before the slot was there. -/
theorem SetsOut.heard_not_mem {play : Play} {key : UInt8} (out : b.SetsOut play key)
    (h : b.outlet? slot = none) :
    Event.heard b.dispatches slot key ∉ (b.press play key).eventsOf b.dispatches := by
  rw [out.eventsOf_press, heard_mem_dispatchEvents_iff]
  rintro ⟨invited, -⟩
  obtain ⟨o, ho, -⟩ := isAlive_eq_true_iff.mp (isAlive_of_mem_audience invited)
  rw [h] at ho
  cases ho

/-- **Main theorem.** Machines and list are in step at every moment of every run in which nobody
    meddles with the registrations of machines. -/
theorem MomentOf.inStep (h : MomentOf Discreet b) : b.InStep := by
  have hb := h.linked
  have absent {slot : Slot} {m : Machine} (hm : b.device? slot = some (.machine m))
      (hnot : m.isAttached = false) :
      (b.registry.entries.filter fun entry => entry.slot = slot) = [] := by
    refine Registry.filter_slot_of_not_mem fun there => ?_
    rw [(hb.toMatched.mem_audience_iff hm).mp there] at hnot
    cases hnot
  refine
    { attached := fun hm _ => ?_, detached := absent, dead := fun {slot m} hm hdead => ?_,
      count := hb.listenerCount_eq, detach := hb.registry_detachMachine,
      unplug := hb.registry_unplug, letGo := hb.registry_letGo, operate := fun slot op => ?_,
      invited := hb.invited,
      heard := fun hm _ _ hplay hkey hup => hb.heard hm ⟨h.moment, hplay, hkey, hup⟩,
      newcomer := fun hnone _ _ hplay hkey hup =>
        SetsOut.heard_not_mem ⟨h.moment, hplay, hkey, hup⟩ hnone }
  · rw [Machine.isAttached_eq_true_iff]
    refine exists_congr fun ticket => ⟨fun active => ⟨active, ?_⟩, fun found => found.1⟩
    exact hb.ordered.filter_slot ((hb.link (subscription?_of_device? hm) ticket).mp active)
  · have hnot : m.isAttached = false := by
      refine Bool.eq_false_iff.mpr fun attached => ?_
      exact Bool.false_ne_true (hdead.symm.trans (hb.alive_of_isAttached hm attached))
    exact ⟨hnot, absent hm hnot⟩
  · have unmoved := Unmoved.operate b slot op
    exact ⟨unmoved.registry, unmoved.subscription⟩

end Board

/-! ## Runs in which everybody is discreet -/

/-- Whether an action neither registers anybody nor gives a ticket back. -/
def Action.IsPlain : Action → Prop
  | .add _ | .remove _ => False
  | .plugScript _ | .plugMachine _ _ | .attach _ | .detach _ | .operate _ _ | .unplug _ | .press _
  | .pressBusy _ _ | .release _ | .askKey _ | .askCount => True

namespace Board

/-- Runs of discreet actions that plug in no scripts but plain ones. -/
def DiscreetRun (depth : ℕ) : Board → List Action → Prop
  | _, [] => True
  | b, action :: rest =>
    b.Discreet action ∧ action.Plugs Action.IsPlain ∧
      DiscreetRun depth (b.act depth action).2 rest

variable {b c d : Board} {depth : ℕ} {action : Action} {actions : List Action}

/-- A plain action meddles with nobody, whatever the board. -/
theorem discreet_of_isPlain (h : action.IsPlain) (b : Board) : b.Discreet action := by
  cases action with
  | add slot => exact h.elim
  | remove ticket => exact h.elim
  | _ => trivial

/-- Plain scripts are courses of discreet actions, however deeply they nest. -/
theorem courseOf_hearing_of_plain (depth : ℕ) (slot : Slot) (script : List Action) (d : Board)
    (hd : d.Every (Device.Plays Action.IsPlain)) (hscript : ThroughoutAll Action.IsPlain script) :
    CourseOf Discreet d (hearing depth slot script d) :=
  .hearing (Device.lasting_plays Action.IsPlain)
    (fun h action hmem => discreet_of_isPlain (ThroughoutAll.forall_mem h action hmem).self)
    depth slot script d hd hscript

/-- A discreet run goes from one moment of such runs to another. -/
theorem MomentOf.after (h : MomentOf Discreet b) (hb : b.Every (Device.Plays Action.IsPlain))
    (hrun : DiscreetRun depth b actions) : MomentOf Discreet (b.after depth actions) := by
  induction actions generalizing b with
  | nil => exact h
  | cons action rest ih =>
    obtain ⟨hdiscreet, hplain, hlater⟩ := hrun
    have lasting := Device.lasting_plays Action.IsPlain
    have course := CourseOf.act_of_every lasting (courseOf_hearing_of_plain depth) (.stay b) hb
      hdiscreet
    exact ih (h.course course) (hb.act lasting depth hplain) hlater

/-- A listener drops a machine and detaches another while all three are told of a key. -/
def dropping : Board :=
  (empty .atDispatch).after 1
    [.plugScript [.unplug 1, .detach 2], .add 0, .plugMachine (.ofBytes #[]) true,
      .plugMachine (.ofBytes #[]) true, .plugMachine (.ofBytes #[]) true, .press 5]

theorem inStep_dropping :
    dropping.registry.entries = [⟨⟨0⟩, 0⟩, ⟨⟨3⟩, 3⟩] ∧
      dropping.eventsOf 0 = [.dispatched 0 5 [0, 1, 2, 3], .heard 0 0 5, .done 0 0, .heard 0 1 5,
        .done 0 1, .heard 0 2 5, .done 0 2, .heard 0 3 5, .done 0 3, .finished 0] ∧
      dropping.InStep := by
  refine ⟨rfl, rfl, MomentOf.inStep ?_⟩
  refine MomentOf.after (.start .atDispatch) (fun o ho => absurd ho List.not_mem_nil) ?_
  exact ⟨trivial, ⟨trivial, trivial, trivial⟩, rfl, trivial, trivial, trivial, trivial, trivial,
    trivial, trivial, trivial, trivial, trivial⟩

end Board

end Chip8
