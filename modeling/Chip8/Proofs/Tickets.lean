import Chip8.Proofs.RegistrationSteps
import Mathlib.Data.List.Nodup

/-!
# Tickets

Tickets are numbered as they are given out, one for each listener that was not registered, and no
number is used again. So a ticket whose registration is gone may be given back late, or twice: it
is nobody else's by then.

* `Registry.Op`, `Registry.after`, `Registry.issued`: sequences of operations on a registry, and the
  tickets that they give out.
* `Registry.Lawful`, `lawful_after`: what holds after any such sequence on an empty registry.
* `Moment.ownTickets`: at no moment of a run does anybody else hold the ticket that a machine
  remembers.
* `Moment.called_once`: no dispatch calls a listener twice.
* `Board.Tickets`, `Moment.tickets`: all this at every moment of a run.
-/

namespace Chip8

namespace Registry

/-- What can be done to a registry. -/
inductive Op where
  /-- Registers a listener, dead or alive. -/
  | register (slot : Slot)
  /-- Gives a ticket back. -/
  | unregister (ticket : Ticket)
  /-- Takes off the list whoever is not alive. -/
  | prune (alive : Slot → Bool)

/-- The registry after an operation. -/
def apply (r : Registry) : Op → Registry
  | .register slot => (r.register slot).2.1
  | .unregister ticket => (r.unregister ticket).1
  | .prune alive => r.prune alive

/-- The registry after several operations. -/
def after (r : Registry) (ops : List Op) : Registry := ops.foldl apply r

/-- The ticket that an operation gives out: one for a listener that was not registered. -/
def issue? (r : Registry) : Op → Option Ticket
  | .register slot => if slot ∈ r.audience then none else some (r.register slot).1
  | .unregister _ | .prune _ => none

/-- The tickets that several operations give out, the first one first. -/
def issued (r : Registry) : List Op → List Ticket
  | [] => []
  | op :: rest => (r.issue? op).toList ++ (r.apply op).issued rest

variable {r : Registry} {slot : Slot} {ticket : Ticket} {entry other : Registration}

/-! ## Who holds a ticket -/

theorem Ordered.nodup_tickets (h : r.Ordered) : (r.entries.map (·.ticket)).Nodup := by
  refine List.pairwise_map.mpr (h.ascending.imp fun lt same => ?_)
  rw [same] at lt
  exact lt.false

/-- Nobody holds the ticket of somebody else. -/
theorem Ordered.eq_of_ticket_eq (h : r.Ordered) (hentry : entry ∈ r.entries)
    (hother : other ∈ r.entries) (same : entry.ticket = other.ticket) : entry = other :=
  List.inj_on_of_nodup_map h.nodup_tickets hentry hother same

theorem Ordered.find?_eq (h : r.Ordered) (hentry : entry ∈ r.entries) :
    r.find? entry.slot = some entry := by
  cases hfind : r.find? entry.slot with
  | none => exact absurd (List.mem_map_of_mem hentry) (find?_eq_none_iff.mp hfind)
  | some found =>
    have there : found ∈ r.entries := List.mem_of_find?_eq_some hfind
    have same : found.slot = entry.slot := by simpa using List.find?_some hfind
    rw [List.inj_on_of_nodup_map h.nodup there hentry same]

/-- Registering a listener again gives its present ticket, and nothing changes. -/
theorem Ordered.register_eq (h : r.Ordered) (hentry : entry ∈ r.entries) :
    r.register entry.slot = (entry.ticket, r, [.alreadyRegistered entry.ticket]) := by
  unfold Registry.register
  rw [h.find?_eq hentry]

/-- Whoever was asked for is registered under the ticket that was given. -/
theorem Ordered.mem_register (h : r.Ordered) (slot : Slot) :
    ⟨(r.register slot).1, slot⟩ ∈ (r.register slot).2.1.entries := by
  by_cases there : slot ∈ r.audience
  · obtain ⟨entry, hentry, rfl⟩ := List.mem_map.mp there
    rw [h.register_eq hentry]
    exact hentry
  · rw [register_of_not_mem there]
    exact List.mem_append_right _ List.mem_cons_self

/-- Giving back a ticket takes its holder off the list, and leaves the others as they are. -/
theorem Ordered.unregister_eq (h : r.Ordered) (hentry : entry ∈ r.entries) :
    r.unregister entry.ticket = ({ r with entries := r.entries.erase entry }, []) := by
  have held : (r.entries.any fun other => other.ticket = entry.ticket) = true :=
    List.any_eq_true.mpr ⟨entry, hentry, by simp⟩
  have erased : (r.entries.eraseP fun other => other.ticket = entry.ticket) =
      r.entries.erase entry := by
    have filtered := h.entries_unregister entry.ticket
    unfold Registry.unregister at filtered
    rw [held, if_pos rfl] at filtered
    refine filtered.trans ?_
    rw [h.nodup_tickets.of_map.erase_eq_filter]
    refine List.filter_congr fun other hother => ?_
    by_cases same : other = entry
    · simp [same]
    · have different : other.ticket ≠ entry.ticket :=
        fun holds => same (h.eq_of_ticket_eq hother hentry holds)
      simp [same, different]
  unfold Registry.unregister
  rw [held, if_pos rfl, erased]

/-- Giving back a ticket that nobody holds changes nothing. -/
theorem unregister_of_absent (h : ∀ entry ∈ r.entries, entry.ticket ≠ ticket) :
    r.unregister ticket = (r, [.notRegistered ticket]) := by
  have absent : (r.entries.any fun entry => entry.ticket = ticket) = false := by
    simpa using h
  unfold unregister
  rw [absent, if_neg Bool.false_ne_true]

/-- The entries of the others are left alone when a ticket is given back that none of them holds. -/
theorem Ordered.forget_unregister (h : r.Ordered)
    (hown : ∀ entry ∈ r.entries, entry.ticket = ticket → entry.slot = slot) :
    (r.unregister ticket).1.forget slot = r.forget slot := by
  unfold Registry.forget Registry.prune
  rw [h.entries_unregister, next_unregister, List.filter_filter]
  congr 1
  refine List.filter_congr fun entry hentry => ?_
  by_cases same : entry.slot = slot
  · simp [same]
  · have foreign : entry.ticket ≠ ticket := fun holds => same (hown entry hentry holds)
    simp [foreign]

/-! ## Sequences of operations -/

theorem after_append (r : Registry) (ops more : List Op) :
    r.after (ops ++ more) = (r.after ops).after more := List.foldl_append

theorem Ordered.after (h : r.Ordered) (ops : List Op) : (r.after ops).Ordered := by
  induction ops generalizing r with
  | nil => exact h
  | cons op rest ih =>
    apply ih
    cases op with
    | register slot => exact h.register slot
    | unregister ticket => exact h.unregister ticket
    | prune alive => exact h.prune alive

/-- An operation gives out the next ticket or none. -/
theorem issue?_cases (r : Registry) (op : Op) :
    r.issue? op = none ∧ (r.apply op).next = r.next ∨
      r.issue? op = some ⟨r.next⟩ ∧ (r.apply op).next = r.next + 1 := by
  cases op with
  | register slot =>
    simp only [issue?, apply]
    by_cases there : slot ∈ r.audience
    · exact .inl ⟨if_pos there, by rw [register_of_mem there]⟩
    · rw [if_neg there, register_of_not_mem there]
      exact .inr ⟨rfl, rfl⟩
  | unregister ticket => exact .inl ⟨rfl, r.next_unregister ticket⟩
  | prune alive => exact .inl ⟨rfl, rfl⟩

/-- The tickets that are given out are numbered one after the other. -/
theorem issued_eq (r : Registry) (ops : List Op) :
    ∃ count, r.issued ops = (List.range' r.next count).map Ticket.mk ∧
      (r.after ops).next = r.next + count := by
  induction ops generalizing r with
  | nil => exact ⟨0, rfl, rfl⟩
  | cons op rest ih =>
    obtain ⟨count, tickets, next⟩ := ih (r.apply op)
    have first : r.issued (op :: rest) = (r.issue? op).toList ++ (r.apply op).issued rest := rfl
    have later : r.after (op :: rest) = (r.apply op).after rest := rfl
    rcases r.issue?_cases op with ⟨none, same⟩ | ⟨some, up⟩
    · refine ⟨count, ?_, ?_⟩
      · rw [first, none, tickets, same]
        rfl
      · rw [later, next, same]
    · refine ⟨count + 1, ?_, ?_⟩
      · rw [first, some, tickets, up, List.range'_succ]
        rfl
      · rw [later, next, up]
        omega

/-- A ticket that was given out and is nobody's stays nobody's. -/
theorem absent_after (hticket : ticket.number < r.next)
    (h : ∀ entry ∈ r.entries, entry.ticket ≠ ticket) (ops : List Op) :
    ∀ entry ∈ (r.after ops).entries, entry.ticket ≠ ticket := by
  induction ops generalizing r with
  | nil => exact h
  | cons op rest ih =>
    have next_le : r.next ≤ (r.apply op).next := by
      rcases r.issue?_cases op with ⟨-, same⟩ | ⟨-, up⟩ <;> omega
    refine ih (hticket.trans_le next_le) fun entry hentry => ?_
    cases op with
    | register slot =>
      rcases Registry.mem_register hentry with old | rfl
      · exact h entry old
      · rintro rfl
        exact hticket.false
    | unregister other => exact h entry ((r.unregister_sublist other).subset hentry)
    | prune alive => exact h entry (List.mem_of_mem_filter hentry)

/-- What holds of a registry that comes of some operations on an empty one. -/
structure Lawful (ops : List Op) (r : Registry) : Prop where
  eq : r = empty.after ops
  /-- Tickets ascend along the list to the next one, and nobody is registered twice. -/
  ordered : r.Ordered
  /-- Tickets were given out for registrations only, numbered from zero without a gap. -/
  issued : empty.issued ops = (List.range r.next).map Ticket.mk
  /-- As long as fewer than 2 ^ 64 of them were given out, their numbers fit a word of 64 bits. -/
  word (h : (empty.issued ops).length < 2 ^ 64) : (UInt64.ofNat r.next).toNat = r.next
  /-- Registering a listener again gives its present ticket and changes nothing. -/
  again {entry : Registration} (h : entry ∈ r.entries) :
    r.register entry.slot = (entry.ticket, r, [.alreadyRegistered entry.ticket])
  /-- Any other listener comes last on the list, with a ticket that was never given out before. -/
  fresh {slot : Slot} (h : slot ∉ r.audience) :
    (r.register slot).2.1.entries = r.entries ++ [⟨(r.register slot).1, slot⟩] ∧
      (r.register slot).1 ∉ empty.issued ops
  /-- Giving back a ticket takes its holder off the list and leaves the others in their order. -/
  removed {entry : Registration} (h : entry ∈ r.entries) :
    r.unregister entry.ticket = ({ r with entries := r.entries.erase entry }, [])
  /-- If nobody holds the ticket, that changes nothing. -/
  absent {ticket : Ticket} (h : ∀ entry ∈ r.entries, entry.ticket ≠ ticket) :
    r.unregister ticket = (r, [.notRegistered ticket])
  /-- Nor does it ever, once the holder of the ticket is gone. -/
  stale {ticket : Ticket} (hissued : ticket ∈ empty.issued ops)
      (h : ∀ entry ∈ r.entries, entry.ticket ≠ ticket) (more : List Op) :
    ((r.after more).unregister ticket).1 = r.after more

theorem lawful_after (ops : List Op) : Lawful ops (empty.after ops) := by
  obtain ⟨count, tickets, next⟩ := empty.issued_eq ops
  have counted : (empty.after ops).next = count := next.trans (Nat.zero_add _)
  have issued : empty.issued ops = (List.range (empty.after ops).next).map Ticket.mk := by
    rw [tickets, counted, List.range_eq_range']
    rfl
  have ordered := ordered_empty.after ops
  have given {ticket : Ticket} (h : ticket ∈ empty.issued ops) :
      ticket.number < (empty.after ops).next := by
    rw [issued] at h
    obtain ⟨number, hnumber, rfl⟩ := List.mem_map.mp h
    exact List.mem_range.mp hnumber
  refine ⟨rfl, ordered, issued, fun h => ?_, ordered.register_eq, fun {slot} h => ?_,
    ordered.unregister_eq, unregister_of_absent, fun hissued h more => ?_⟩
  · rw [issued, List.length_map, List.length_range] at h
    exact UInt64.toNat_ofNat_of_lt' h
  · rw [register_of_not_mem h]
    exact ⟨rfl, fun old => (given old).false⟩
  · rw [unregister_of_absent (absent_after (given hissued) h more)]

end Registry

/-- Whether an event is a call of this listener. -/
def Event.isCallOf (slot : Slot) : Event → Bool
  | .heard _ other _ => other = slot
  | .pressed _ | .released _ | .dispatched _ _ _ | .done _ _ | .skipped _ _ _ | .finished _
  | .noted _ _ _ | .reported _ | .tooDeep _ => false

namespace Board

variable {b c d : Board} {slot : Slot} {entry : Registration}

/-! ## Registrations on a board -/

/-- What happens to a board comes down to operations on its registry. -/
theorem Evolves.registry (h : b.Evolves c) : ∃ ops, c.registry = b.registry.after ops := by
  refine h.invariant (P := fun d => ∃ ops, d.registry = b.registry.after ops) ?_ ⟨[], rfl⟩
  rintro d e change ⟨ops, hd⟩
  have further (op : Registry.Op) (he : e.registry = d.registry.apply op) :
      ∃ ops, e.registry = b.registry.after ops :=
    ⟨ops ++ [op], by rw [Registry.after_append, ← hd, he]; rfl⟩
  cases change with
  | @register slot _ => exact further (.register slot) rfl
  | unregister ticket => exact further (.unregister ticket) rfl
  | @forget slot _ => exact further (.prune (· != slot)) rfl
  | setOut _ _ => exact further (.prune d.isAlive) rfl
  | _ => exact ⟨ops, hd⟩

theorem Moment.registry (h : b.Moment) : ∃ ops, b.registry = Registry.empty.after ops := by
  obtain ⟨pruning, evolves⟩ := h.evolves
  exact evolves.registry

/-- A ticket that is no longer held will not be held again. -/
theorem Evolves.absent (h : b.Evolves c) (hb : b.registry.Ordered)
    (hentry : entry ∈ b.registry.entries) (gone : entry ∉ c.registry.entries) :
    ∀ other ∈ c.registry.entries, other.ticket ≠ entry.ticket := by
  intro other hother same
  rcases h.mem_entries other hother with old | later
  · rw [hb.eq_of_ticket_eq old hentry same] at hother
    exact gone hother
  · have lt := hb.lt_next hentry
    rw [same] at later
    omega

/-- Giving it back changes nothing, however much later. -/
theorem Evolves.registry_cancel (h : b.Evolves c) (hb : b.registry.Ordered)
    (hentry : entry ∈ b.registry.entries) (gone : entry ∉ c.registry.entries)
    (hd : c.Evolves d) : (d.cancel entry.ticket).registry = d.registry := by
  obtain ⟨more, hmore⟩ := hd.registry
  have given := (hb.lt_next hentry).trans_le h.next_le
  have absent := Registry.absent_after given (h.absent hb hentry gone) more
  rw [Board.registry_cancel, hmore, Registry.unregister_of_absent absent]

/-- A new registration comes with a ticket that nobody was ever given. -/
theorem Evolves.ticket_ne {a : Board} {other : Slot} (h : (a.subscribe other).2.Evolves b)
    (ha : a.registry.Ordered) (hslot : slot ∉ b.registry.audience) :
    (b.subscribe slot).1 ≠ (a.subscribe other).1 := by
  intro same
  have new : (b.subscribe slot).1 = ⟨b.registry.next⟩ :=
    congrArg (·.1) (Registry.register_of_not_mem hslot)
  have given : (a.registry.register other).1.number < (a.registry.register other).2.1.next :=
    (ha.register other).lt_next (ha.mem_register other)
  have before := h.next_le
  rw [registry_subscribe] at before
  have number : b.registry.next = (a.registry.register other).1.number :=
    congrArg Ticket.number (new.symm.trans same)
  omega

/-! ## The tickets that machines remember -/

/-- Whether nobody but a machine itself holds the ticket that it remembers. -/
structure OwnTickets (b : Board) : Prop where
  ordered : b.registry.Ordered
  known {slot : Slot} {ticket : Ticket} (h : b.subscription? slot = some (.active ticket)) :
    ticket.number < b.registry.next
  own {slot : Slot} {ticket : Ticket} (h : b.subscription? slot = some (.active ticket))
      {entry : Registration} (hentry : entry ∈ b.registry.entries) (same : entry.ticket = ticket) :
    entry.slot = slot

/-- Nobody is registered that was not, and no machine subscribes. -/
structure Lessened (b c : Board) : Prop where
  entries : c.registry.entries.Sublist b.registry.entries
  next : c.registry.next = b.registry.next
  active {slot : Slot} {ticket : Ticket} (h : c.subscription? slot = some (.active ticket)) :
    b.subscription? slot = some (.active ticket)

theorem Lessened.trans (h : Lessened b c) (h' : Lessened c d) : Lessened b d where
  entries := h'.entries.trans h.entries
  next := h'.next.trans h.next
  active hactive := h.active (h'.active hactive)

theorem OwnTickets.lessened (hb : b.OwnTickets) (h : Lessened b c) : c.OwnTickets where
  ordered := hb.ordered.of_sublist h.entries h.next
  known hactive := h.next ▸ hb.known (h.active hactive)
  own hactive _ hentry same := hb.own (h.active hactive) (h.entries.subset hentry) same

theorem Unmoved.lessened (h : Unmoved b c) : Lessened b c where
  entries := by rw [h.registry]
  next := by rw [h.registry]
  active hactive := (h.subscription _).symm.trans hactive

theorem Lessened.cancel (b : Board) (ticket : Ticket) : Lessened b (b.cancel ticket) where
  entries := by
    rw [registry_cancel]
    exact b.registry.unregister_sublist ticket
  next := by rw [registry_cancel, Registry.next_unregister]
  active hactive := (subscription?_of_outlets_eq (outlets_cancel b ticket) _).symm.trans hactive

theorem Lessened.detachMachine (b : Board) (slot : Slot) {m : Machine}
    (h : b.device? slot = some (.machine m)) : Lessened b (b.detachMachine slot m) := by
  have active {other : Slot} {ticket : Ticket}
      (hactive : (b.detachMachine slot m).subscription? other = some (.active ticket)) :
      b.subscription? other = some (.active ticket) := by
    by_cases same : slot = other
    · subst same
      exact absurd hactive (subscription?_detachMachine_ne h ticket)
    · exact ((Apart.detachMachine b slot m).subscription same).symm.trans hactive
  by_cases attached : ∃ ticket, m.subscription = .active ticket
  · obtain ⟨ticket, hticket⟩ := attached
    refine ⟨?_, ?_, active⟩
    · rw [detachMachine_of_active hticket, registry_cancel]
      exact b.registry.unregister_sublist ticket
    · rw [detachMachine_of_active hticket, registry_cancel]
      exact b.registry.next_unregister ticket
  · rw [detachMachine_of_not_active (not_exists.mp attached)]
    exact (Unmoved.refl b).lessened

theorem Lessened.bury (b : Board) (slot : Slot) : Lessened b (b.bury slot) := by
  rcases b.bury_cases slot with same | same
  · rw [same]
    exact (Unmoved.refl b).lessened
  · rw [same]
    exact ⟨List.filter_sublist, rfl, id⟩

theorem Lessened.settle (b : Board) (slot : Slot) : Lessened b (b.settle slot) := by
  cases dead : b.isAlive slot with
  | true =>
    rw [settle_of_isAlive dead]
    exact (Unmoved.refl b).lessened
  | false =>
    by_cases machine : ∃ m, b.device? slot = some (.machine m)
    · obtain ⟨m, hm⟩ := machine
      have there := (b.device?_bury slot slot).trans hm
      rw [settle_of_machine dead hm]
      exact (Lessened.bury b slot).trans (.detachMachine _ slot there)
    · rw [settle_of_no_machine dead (not_exists.mp machine)]
      exact .bury b slot

/-- An outlet may change if its device has the same ticket. -/
theorem Lessened.modify {f : Outlet → Outlet} (hdevice : ∀ o, (f o).device = o.device) :
    Lessened b (b.modify slot f) :=
  ⟨.refl _, rfl, fun hactive =>
    (subscription?_modify (fun o _ => by rw [hdevice]) _).symm.trans hactive⟩

theorem Lessened.plug {device : Device}
    (h : ∀ ticket, device.subscription? ≠ some (.active ticket)) :
    Lessened b (b.plug device).2 := by
  refine ⟨.refl _, rfl, fun {other ticket} hactive => ?_⟩
  rw [subscription?, device?, outlet?_plug] at hactive
  split at hactive
  · exact absurd hactive (h ticket)
  · exact hactive

/-- Whoever is registered, only a machine that subscribes remembers the ticket. -/
theorem OwnTickets.register (hb : b.OwnTickets) (slot : Slot)
    (hregistry : c.registry = (b.registry.register slot).2.1)
    (hactive : ∀ other ticket, c.subscription? other = some (.active ticket) →
      b.subscription? other = some (.active ticket) ∨
        other = slot ∧ ticket = (b.registry.register slot).1) : c.OwnTickets := by
  have ordered : c.registry.Ordered := hregistry ▸ hb.ordered.register slot
  have there : ⟨(b.registry.register slot).1, slot⟩ ∈ c.registry.entries :=
    hregistry ▸ hb.ordered.mem_register slot
  refine ⟨ordered, fun {other ticket} h => ?_, fun {other ticket} h {entry} hentry same => ?_⟩
  · rcases hactive other ticket h with old | ⟨-, rfl⟩
    · rw [hregistry]
      exact (hb.known old).trans_le (b.registry.next_le_register slot)
    · exact ordered.lt_next there
  · rcases hactive other ticket h with old | ⟨rfl, rfl⟩
    · have hmem := hregistry ▸ hentry
      rcases Registry.mem_register hmem with before | rfl
      · exact hb.own old before same
      · have lt := hb.known old
        rw [← same] at lt
        exact absurd lt (lt_irrefl _)
    · exact congrArg Registration.slot (ordered.eq_of_ticket_eq hentry there same)

/-- A single step leaves to every machine its own ticket. -/
theorem OwnTickets.dealing {Allowed : Board → Action → Prop} (h : Dealing Allowed b c)
    (hb : b.OwnTickets) : c.OwnTickets := by
  cases h with
  | unmoved h => exact hb.lessened h.lessened
  | plug h => exact hb.lessened (.plug h)
  | @attach slot m hm _ =>
    refine hb.register slot (b.registry_attachMachine slot m) fun other ticket hactive => ?_
    have hdevice : (b.subscribe slot).2.device? slot = some (.machine m) :=
      (device?_report _ _ _).trans (device?_of_machine? hm)
    by_cases same : slot = other
    · subst same
      rw [attachMachine, subscription?_setMachine hdevice, Option.some.injEq,
        Subscription.active.injEq] at hactive
      exact .inr ⟨rfl, hactive.symm⟩
    · refine .inl ((subscription?_of_outlets_eq (outlets_subscribe b slot) other).symm.trans ?_)
      exact (subscription?_modify_of_ne same _).symm.trans hactive
  | detach hm => exact hb.lessened (.detachMachine _ _ hm)
  | @add slot _ _ =>
    refine hb.register slot (b.registry_subscribe slot) fun other ticket hactive => .inl ?_
    exact (subscription?_of_outlets_eq (outlets_subscribe b slot) other).symm.trans hactive
  | remove _ => exact hb.lessened (.cancel _ _)
  | lessen hdevice => exact hb.lessened ((Lessened.modify hdevice).trans (.settle _ _))
  | setOut key => exact hb.lessened ⟨List.filter_sublist, rfl, id⟩

/-- At no moment does anybody else hold the ticket that a machine remembers. -/
theorem Moment.ownTickets (h : b.Moment) : b.OwnTickets := by
  have everything : MomentOf (fun _ _ => True) b := h.momentOf fun _ _ => trivial
  refine everything.invariant (P := OwnTickets) (fun pruning => ?_) OwnTickets.dealing
  exact ⟨Registry.ordered_empty, nofun, nofun⟩

/-- So detaching a machine leaves the registrations of all others alone, -/
theorem OwnTickets.forget_detachMachine (hb : b.OwnTickets) {m : Machine}
    (h : b.device? slot = some (.machine m)) :
    (b.detachMachine slot m).registry.forget slot = b.registry.forget slot := by
  by_cases attached : ∃ ticket, m.subscription = .active ticket
  · obtain ⟨ticket, hticket⟩ := attached
    have active : b.subscription? slot = some (.active ticket) :=
      (subscription?_of_device? h).trans (congrArg some hticket)
    rw [detachMachine_of_active hticket, registry_cancel]
    exact hb.ordered.forget_unregister fun entry hentry same => hb.own active hentry same
  · rw [detachMachine_of_not_active (not_exists.mp attached)]

theorem forget_bury (b : Board) (slot : Slot) :
    (b.bury slot).registry.forget slot = b.registry.forget slot := by
  rcases b.bury_cases slot with same | same
  · rw [same]
  · rw [same]
    simp [Registry.forget, Registry.prune]

/-- and so does the death of any device. -/
theorem OwnTickets.forget_settle (hb : b.OwnTickets) (slot : Slot) :
    (b.settle slot).registry.forget slot = b.registry.forget slot := by
  cases dead : b.isAlive slot with
  | true => rw [settle_of_isAlive dead]
  | false =>
    by_cases machine : ∃ m, b.device? slot = some (.machine m)
    · obtain ⟨m, hm⟩ := machine
      have buried : (b.bury slot).OwnTickets := hb.lessened (.bury b slot)
      rw [settle_of_machine dead hm,
        buried.forget_detachMachine ((b.device?_bury slot slot).trans hm), forget_bury]
    · rw [settle_of_no_machine dead (not_exists.mp machine), forget_bury]

/-! ## Calls -/

theorem countP_turnEvents (b : Board) (key : UInt8) (slot : Slot) (slots : List Slot) :
    (slots.flatMap (b.turnEvents key)).countP (Event.isCallOf slot) ≤ slots.count slot := by
  induction slots with
  | nil => exact le_rfl
  | cons first rest ih =>
    have one : (b.turnEvents key first).countP (Event.isCallOf slot) ≤ [first].count slot := by
      unfold turnEvents
      split
      · exact Nat.zero_le _
      · simp [Event.isCallOf, List.count_singleton, List.countP_cons]
    rw [List.flatMap_cons, List.countP_append, ← List.singleton_append, List.count_append]
    exact Nat.add_le_add one ih

section SetsOut

variable {play : Play} {key : UInt8} {number : ℕ} (h : b.SetsOut play key)

include h

theorem SetsOut.count_audience (slot : Slot) : b.audience.count slot ≤ 1 :=
  List.nodup_iff_count_le_one.mp h.snapshot.once slot

/-- A dispatch that is over called nobody twice. -/
theorem SetsOut.called_once (slot : Slot) :
    (b.dispatchEvents key).countP (Event.isCallOf slot) ≤ 1 := by
  have turns := (b.countP_turnEvents key slot b.audience).trans (h.count_audience slot)
  simpa [dispatchEvents, List.countP_cons, Event.isCallOf] using turns

/-- What was told of earlier dispatches stays as it is while a dispatch is under way. -/
theorem SetsOut.eventsOf_atTurn_of_lt {before after : List Slot}
    (haudience : b.audience = before ++ after) (hnumber : number < b.dispatches) :
    (b.atTurn play key before).eventsOf number = b.eventsOf number := by
  have turns : Kept (· < b.dispatches) before (b.underWay key) (b.atTurn play key before) :=
    .atTurn h.responsive.kept haudience (lt_irrefl _) fun n hn =>
      Nat.lt_trans hn (b.dispatches_lt_underWay key)
  obtain ⟨outlets, hunderWay⟩ := (b.setOut key).exists_foldl_hold b.audience
  have held : (b.underWay key).eventsOf number = (b.setOut key).eventsOf number := by
    rw [underWay, hunderWay]
    rfl
  rw [turns.eventsOf_eq hnumber, held]
  exact (Kept.setOut b key).eventsOf_eq hnumber

/-- A dispatch that is under way has not called anybody twice, either. -/
theorem SetsOut.called_once_atResponse {before after : List Slot} {other : Slot}
    (haudience : b.audience = before ++ other :: after) (slot : Slot) :
    ((b.atResponse play key before other).eventsOf b.dispatches).countP (Event.isCallOf slot) ≤
      1 := by
  have told : (b.atResponse play key before other).eventsOf b.dispatches =
      (b.atTurn play key before).eventsOf b.dispatches ++ [.heard b.dispatches other key] :=
    eventsOf_tell_self rfl _
  have calls := b.countP_turnEvents key slot before
  have last : [Event.heard b.dispatches other key].countP (Event.isCallOf slot) =
      [other].count slot := by
    simp [Event.isCallOf, List.count_singleton, List.countP_cons]
  have once := h.count_audience slot
  rw [haudience, List.count_append, ← List.singleton_append, List.count_append] at once
  rw [told, h.eventsOf_atTurn haudience, List.countP_append, last,
    List.countP_cons_of_neg Bool.false_ne_true]
  omega

end SetsOut

/-- No dispatch calls a listener twice, be it over or under way. -/
theorem Moment.called_once (h : b.Moment) (slot : Slot) :
    ∀ number, (b.eventsOf number).countP (Event.isCallOf slot) ≤ 1 := by
  -- By the moment: dispatches that were there before stay as they are, and each new one is over
  -- or is the one that is under way.
  induction h with
  | start pruning => exact fun _ => Nat.zero_le _
  | @course b c hb hc ih =>
    intro number
    by_cases earlier : number < b.dispatches
    · rw [hc.kept.eventsOf_eq earlier]
      exact ih number
    · by_cases counted : number < c.dispatches
      · obtain ⟨d, play, key, out, -, -, -, told⟩ :=
          hc.allTraced hb number (Nat.le_of_not_lt earlier) counted
        rw [told]
        exact out.called_once slot
      · rw [(hb.course hc).eventsOf_eq_nil number (Nat.le_of_not_lt counted)]
        exact Nat.zero_le _
  | borrow _ _ _ ih => exact ih
  | @response b play key before after other script hb hplay hkey hup haudience hdevice hfree ih =>
    intro number
    have out : b.SetsOut play key := ⟨hb, hplay, hkey, hup⟩
    rcases Nat.lt_trichotomy number b.dispatches with earlier | rfl | later
    · have same : (b.atResponse play key before other).eventsOf number = b.eventsOf number :=
        (eventsOf_tell_other (by simpa [Event.number?] using earlier.ne') _).trans
          (out.eventsOf_atTurn_of_lt haudience earlier)
      exact same ▸ ih number
    · exact out.called_once_atResponse haudience slot
    · have same : (b.atResponse play key before other).eventsOf number =
          (b.atTurn play key before).eventsOf number :=
        eventsOf_tell_other (by simpa [Event.number?] using later.ne) _
      have response : (b.atResponse play key before other).Moment :=
        hb.response hplay hkey hup haudience hdevice hfree
      by_cases counted : number < (b.atTurn play key before).dispatches
      · obtain ⟨d, play', key', out', -, -, -, told⟩ :=
          out.traced_atTurn hplay (fun _ _ _ hd => (hplay _ _ _).allTraced hd) haudience later
            counted
        exact (same.trans told) ▸ out'.called_once slot
      · have none := response.eventsOf_eq_nil number (Nat.le_of_not_lt counted)
        exact none ▸ Nat.zero_le 1

/-! ## Every moment -/

/-- What holds of tickets on a board. -/
structure Tickets (b : Board) : Prop where
  /-- Registrations come of operations on an empty registry, and so does all that follows from
      that. -/
  lawful : ∃ ops, Registry.Lawful ops b.registry
  /-- Registering a listener again gives its present ticket and changes nothing. -/
  again {entry : Registration} (h : entry ∈ b.registry.entries) :
    (b.subscribe entry.slot).1 = entry.ticket ∧ (b.subscribe entry.slot).2.registry = b.registry
  /-- Any other listener comes last on the list. Its ticket is none that was given to anybody at
      an earlier moment, whatever happened in between. -/
  fresh {slot : Slot} (h : slot ∉ b.registry.audience) :
    (b.subscribe slot).2.registry.entries =
        b.registry.entries ++ [⟨(b.subscribe slot).1, slot⟩] ∧
      ∀ {a : Board} {other : Slot}, a.Moment → (a.subscribe other).2.Evolves b →
        (b.subscribe slot).1 ≠ (a.subscribe other).1
  /-- Giving back a ticket takes its holder off the list and leaves the others in their order. -/
  removed {entry : Registration} (h : entry ∈ b.registry.entries) :
    (b.cancel entry.ticket).registry =
      { b.registry with entries := b.registry.entries.erase entry }
  /-- If nobody holds the ticket, that changes nothing. -/
  absent {ticket : Ticket} (h : ∀ entry ∈ b.registry.entries, entry.ticket ≠ ticket) :
    (b.cancel ticket).registry = b.registry
  /-- Once a registration is gone, giving its ticket back never changes anything. -/
  stale {c d : Board} {entry : Registration} (h : entry ∈ b.registry.entries) (hc : b.Evolves c)
      (gone : entry ∉ c.registry.entries) (hd : c.Evolves d) :
    (d.cancel entry.ticket).registry = d.registry
  /-- When a machine is detached, the others stay registered in their order, whatever became of
      the ticket that the machine remembers; -/
  detached {slot : Slot} {m : Machine} (h : b.device? slot = some (.machine m)) :
    (b.detachMachine slot m).registry.forget slot = b.registry.forget slot
  /-- so they do when its slot is emptied, or a press lets go of it. -/
  dropped (slot : Slot) : (b.unplug slot).registry.forget slot = b.registry.forget slot ∧
    (b.letGo slot).registry.forget slot = b.registry.forget slot
  /-- No dispatch calls a listener twice. -/
  once (number : ℕ) (slot : Slot) : (b.eventsOf number).countP (Event.isCallOf slot) ≤ 1

/-- **Main theorem.** All this holds at every moment of every run, also in the middle of presses
    that are nested in one another. -/
theorem Moment.tickets (h : b.Moment) : b.Tickets := by
  have ordered := h.ordered
  have own := h.ownTickets
  refine
    { lawful := ?_, again := fun hentry => ?_, fresh := fun {slot} hslot => ?_,
      removed := fun hentry => ?_, absent := fun habsent => ?_,
      stale := fun hentry hc gone hd => hc.registry_cancel ordered hentry gone hd,
      detached := own.forget_detachMachine, dropped := fun slot => ?_,
      once := fun number slot => h.called_once slot number }
  · obtain ⟨ops, hops⟩ := h.registry
    exact ⟨ops, hops ▸ Registry.lawful_after ops⟩
  · have same := ordered.register_eq hentry
    exact ⟨congrArg (·.1) same, (registry_subscribe _ _).trans (congrArg (·.2.1) same)⟩
  · have new := Registry.register_of_not_mem hslot
    have ticket : (b.subscribe slot).1 = ⟨b.registry.next⟩ := congrArg (·.1) new
    refine ⟨?_, fun ha hlater => hlater.ticket_ne ha.ordered hslot⟩
    rw [registry_subscribe, ticket, new]
  · rw [registry_cancel, ordered.unregister_eq hentry]
  · rw [registry_cancel, Registry.unregister_of_absent habsent]
  · have unplugged : Lessened b (b.modify slot fun o => { o with plugged := false }) :=
      .modify fun _ => rfl
    have given : Lessened b (b.modify slot fun o => { o with holds := o.holds - 1 }) :=
      .modify fun _ => rfl
    exact ⟨(own.lessened unplugged).forget_settle slot, (own.lessened given).forget_settle slot⟩

/-- A listener takes a machine off the list while both are told of a key, and another one registers
    the machine again. Then the machine is detached. -/
def reregistered : Board :=
  (empty .atDispatch).after 1
    [.plugScript [.remove ⟨1⟩], .add 0, .plugMachine (.ofBytes #[]) true, .plugScript [.add 1],
      .add 2, .press 5, .detach 1]

theorem tickets_reregistered :
    reregistered.registry.entries = [⟨⟨0⟩, 0⟩, ⟨⟨2⟩, 2⟩, ⟨⟨3⟩, 1⟩] ∧ reregistered.Tickets :=
  ⟨rfl, Moment.tickets (.course (.start .atDispatch) (.after _ _ _))⟩

end Board

end Chip8
