import Chip8.Proofs.Moments

/-!
# Registrations over time

Tickets are numbered as they are given out, and a listener has one at a time; so the list of
registrations is in the order of its tickets, and a registration that is gone does not come back,
whatever is done to the board.

* `Registry.Ordered`: registries of this kind, and that registering, unregistering and pruning
  keep them so.
* `Change.registry`, `Change.mem_entries`: the ways in which one change to a board can affect the
  registry.
* `Moment.ordered`, `Evolves.mem_entries`: what holds of the registry at every moment, and from one
  moment to the next.
* `Evolves.not_mem_invited`: who was taken off the list, or died, is not invited again.
-/

namespace Chip8

namespace Registry

variable {r : Registry} {slot : Slot} {ticket : Ticket} {entry : Registration}

/-- The tickets ascend to the next one to be given out, and nobody is registered twice. -/
structure Ordered (r : Registry) : Prop where
  ascending : r.entries.Pairwise fun first later => first.ticket.number < later.ticket.number
  lt_next {entry : Registration} (h : entry ∈ r.entries) : entry.ticket.number < r.next
  nodup : r.audience.Nodup

theorem ordered_empty : empty.Ordered := ⟨.nil, fun h => (List.not_mem_nil h).elim, .nil⟩

theorem find?_eq_none_iff : r.find? slot = none ↔ slot ∉ r.audience := by
  unfold find? audience
  simp [List.find?_eq_none]

/-- Only a listener that is new gets a ticket that is new. -/
theorem register_of_mem (h : slot ∈ r.audience) : (r.register slot).2.1 = r := by
  have found : r.find? slot ≠ none := fun none => (find?_eq_none_iff.mp none) h
  obtain ⟨entry, hentry⟩ := Option.ne_none_iff_exists'.mp found
  unfold register
  rw [hentry]

theorem register_of_not_mem (h : slot ∉ r.audience) :
    r.register slot = (⟨r.next⟩, ⟨r.entries ++ [⟨⟨r.next⟩, slot⟩], r.next + 1⟩, []) := by
  unfold register
  rw [find?_eq_none_iff.mpr h]

/-- Whoever is on the list now was there before or has the new ticket. -/
theorem mem_register (h : entry ∈ (r.register slot).2.1.entries) :
    entry ∈ r.entries ∨ entry = ⟨⟨r.next⟩, slot⟩ := by
  by_cases there : slot ∈ r.audience
  · rw [register_of_mem there] at h
    exact .inl h
  · rw [register_of_not_mem there] at h
    exact (List.mem_append.mp h).imp_right List.mem_singleton.mp

theorem mem_register_of_mem (h : entry ∈ r.entries) (slot : Slot) :
    entry ∈ (r.register slot).2.1.entries := by
  by_cases there : slot ∈ r.audience
  · rwa [register_of_mem there]
  · rw [register_of_not_mem there]
    exact List.mem_append_left _ h

theorem next_le_register (r : Registry) (slot : Slot) : r.next ≤ (r.register slot).2.1.next := by
  by_cases there : slot ∈ r.audience
  · rw [register_of_mem there]
  · rw [register_of_not_mem there]
    exact Nat.le_succ _

theorem Ordered.register (h : r.Ordered) (slot : Slot) : (r.register slot).2.1.Ordered := by
  by_cases there : slot ∈ r.audience
  · rw [register_of_mem there]
    exact h
  · rw [register_of_not_mem there]
    refine ⟨?_, fun {entry} hentry => ?_, ?_⟩
    · refine List.pairwise_append.mpr ⟨h.ascending, List.pairwise_singleton _ _, ?_⟩
      intro entry hentry new hnew
      rw [List.mem_singleton.mp hnew]
      exact h.lt_next hentry
    · rcases List.mem_append.mp hentry with old | new
      · exact Nat.lt_succ_of_lt (h.lt_next old)
      · rw [List.mem_singleton.mp new]
        exact Nat.lt_succ_self _
    · unfold audience
      rw [List.map_append]
      refine List.nodup_append.mpr ⟨h.nodup, by simp, fun other hother new hnew => ?_⟩
      intro same
      rw [same, List.mem_singleton.mp hnew] at hother
      exact there hother

/-- Whoever remains when others are taken off the list keeps place and ticket. -/
theorem Ordered.of_sublist {r' : Registry} (h : r.Ordered) (hentries : r'.entries.Sublist r.entries)
    (hnext : r'.next = r.next) : r'.Ordered where
  ascending := h.ascending.sublist hentries
  lt_next hentry := hnext ▸ h.lt_next (hentries.subset hentry)
  nodup := h.nodup.sublist (hentries.map _)

theorem unregister_sublist (r : Registry) (ticket : Ticket) :
    (r.unregister ticket).1.entries.Sublist r.entries := by
  unfold unregister
  split
  · exact List.eraseP_sublist
  · exact .refl _

@[simp] theorem next_unregister (r : Registry) (ticket : Ticket) :
    (r.unregister ticket).1.next = r.next := by
  unfold unregister
  split
  · rfl
  · rfl

theorem Ordered.unregister (h : r.Ordered) (ticket : Ticket) : (r.unregister ticket).1.Ordered :=
  h.of_sublist (r.unregister_sublist ticket) (r.next_unregister ticket)

theorem Ordered.prune (h : r.Ordered) (alive : Slot → Bool) : (r.prune alive).Ordered :=
  h.of_sublist List.filter_sublist rfl

/-- Giving a ticket back takes off the list whoever holds it, and nobody else. -/
theorem Ordered.entries_unregister (h : r.Ordered) (ticket : Ticket) :
    (r.unregister ticket).1.entries = r.entries.filter fun entry => entry.ticket ≠ ticket := by
  have erased {entries : List Registration}
      (hentries : entries.Pairwise fun first later => first.ticket.number < later.ticket.number) :
      (entries.eraseP fun entry => entry.ticket = ticket) =
        entries.filter fun entry => entry.ticket ≠ ticket := by
    induction hentries with
    | nil => rfl
    | @cons entry rest hfirst _ ih =>
      by_cases same : entry.ticket = ticket
      · have others : ∀ later ∈ rest, later.ticket ≠ ticket := by
          intro later hlater htwice
          have lt := hfirst later hlater
          rw [same, htwice] at lt
          exact lt.false
        have kept : (rest.filter fun later => later.ticket ≠ ticket) = rest :=
          List.filter_eq_self.mpr fun later hlater => by simpa using others later hlater
        simpa [same] using kept.symm
      · simp [same, ih]
  unfold Registry.unregister
  split
  · exact erased h.ascending
  · next absent =>
    refine (List.filter_eq_self.mpr fun entry hentry => ?_).symm
    have other : entry.ticket ≠ ticket := by
      intro same
      exact absent (List.any_eq_true.mpr ⟨entry, hentry, by simpa using same⟩)
    simpa using other

end Registry

namespace Board

variable {b c : Board} {slot : Slot} {entry : Registration}

/-- The registrations that are told of a key if a dispatch sets out now. -/
def invited (b : Board) : List Registration := (b.registry.prune b.isAlive).entries

theorem mem_invited_iff :
    entry ∈ b.invited ↔ entry ∈ b.registry.entries ∧ b.isAlive entry.slot = true :=
  List.mem_filter

/-- A change to a board registers somebody alive, takes registrations off the list, or leaves the
    registry alone. -/
theorem Change.registry (h : Change b c) :
    (∃ slot, b.isAlive slot = true ∧ c.registry = (b.registry.register slot).2.1) ∨
      (c.registry.entries.Sublist b.registry.entries ∧ c.registry.next = b.registry.next) := by
  cases h with
  | @register slot alive => exact .inl ⟨slot, alive, rfl⟩
  | unregister ticket =>
    exact .inr ⟨b.registry.unregister_sublist ticket, b.registry.next_unregister ticket⟩
  | forget _ => exact .inr ⟨List.filter_sublist, rfl⟩
  | setOut _ _ => exact .inr ⟨List.filter_sublist, rfl⟩
  | _ => exact .inr ⟨.refl _, rfl⟩

/-- A registration was there before the change, or somebody alive has got the next ticket. -/
theorem Change.mem_entries (h : Change b c) (hentry : entry ∈ c.registry.entries) :
    entry ∈ b.registry.entries ∨
      entry.ticket.number = b.registry.next ∧ b.isAlive entry.slot = true := by
  rcases h.registry with ⟨slot, alive, hregistry⟩ | ⟨sublist, -⟩
  · rw [hregistry] at hentry
    rcases Registry.mem_register hentry with old | rfl
    · exact .inl old
    · exact .inr ⟨rfl, alive⟩
  · exact .inl (sublist.subset hentry)

/-- The registrations are in the order of their tickets, and nobody is registered twice. -/
theorem Moment.ordered (h : b.Moment) : b.registry.Ordered := by
  refine h.invariant (P := fun b => b.registry.Ordered) (fun _ => Registry.ordered_empty) ?_
  intro b c change hb
  rcases change.registry with ⟨slot, _, hregistry⟩ | ⟨sublist, next⟩
  · rw [hregistry]
    exact hb.register slot
  · exact hb.of_sublist sublist next

theorem Evolves.outlet?_isSome (h : b.Evolves c) (hslot : (b.outlet? slot).isSome = true) :
    (c.outlet? slot).isSome = true := by
  refine h.invariant (P := fun d => (d.outlet? slot).isSome = true) ?_ hslot
  intro d e change there
  cases change with
  | @modify other f _ => rw [outlet?_modify, Option.isSome_map]; exact there
  | plug device =>
    obtain ⟨o, ho⟩ := Option.isSome_iff_exists.mp there
    rw [outlet?_plug_of_some ho device, Option.isSome_some]
  | _ => exact there

/-- Whoever is registered is or was plugged in. -/
theorem Moment.outlet_of_mem (h : b.Moment) :
    ∀ entry ∈ b.registry.entries, (b.outlet? entry.slot).isSome = true := by
  refine h.invariant (P := fun b => ∀ entry ∈ b.registry.entries,
    (b.outlet? entry.slot).isSome = true) (fun _ entry hentry => by cases hentry) ?_
  intro b c change hb entry hentry
  have before : (b.outlet? entry.slot).isSome = true := by
    rcases change.mem_entries hentry with old | ⟨-, alive⟩
    · exact hb entry old
    · obtain ⟨o, ho, -⟩ := isAlive_eq_true_iff.mp alive
      rw [ho, Option.isSome_some]
  exact change.evolves.outlet?_isSome before

/-- Tickets are not given out twice. -/
theorem Evolves.next_le (h : b.Evolves c) : b.registry.next ≤ c.registry.next := by
  refine h.invariant (P := fun d => b.registry.next ≤ d.registry.next) ?_ le_rfl
  intro d e change hd
  rcases change.registry with ⟨slot, _, hregistry⟩ | ⟨-, next⟩
  · rw [hregistry]
    exact hd.trans (d.registry.next_le_register slot)
  · rw [next]
    exact hd

/-- A registration was there before, or its ticket has been given out since. -/
theorem Evolves.mem_entries (h : b.Evolves c) :
    ∀ entry ∈ c.registry.entries, entry ∈ b.registry.entries ∨
      b.registry.next ≤ entry.ticket.number := by
  have both : b.registry.next ≤ c.registry.next ∧ ∀ entry ∈ c.registry.entries,
      entry ∈ b.registry.entries ∨ b.registry.next ≤ entry.ticket.number := by
    refine h.invariant (P := fun d => b.registry.next ≤ d.registry.next ∧
      ∀ entry ∈ d.registry.entries, entry ∈ b.registry.entries ∨
        b.registry.next ≤ entry.ticket.number) ?_ ⟨le_rfl, fun _ => .inl⟩
    rintro d e change ⟨next_le, hd⟩
    refine ⟨next_le.trans change.evolves.next_le, fun entry hentry => ?_⟩
    rcases change.mem_entries hentry with old | ⟨new, -⟩
    · exact hd entry old
    · exact .inr (next_le.trans_eq new.symm)
  exact both.2

/-- A registration that is gone, or whose listener has died, is not invited again. -/
theorem Evolves.not_mem_invited (h : b.Evolves c) (hticket : entry.ticket.number < b.registry.next)
    (hslot : (b.outlet? entry.slot).isSome = true)
    (gone : entry ∉ b.registry.entries ∨ b.isAlive entry.slot = false) : entry ∉ c.invited := by
  intro invited
  obtain ⟨there, alive⟩ := mem_invited_iff.mp invited
  rcases gone with absent | dead
  · rcases h.mem_entries entry there with before | later
    · exact absent before
    · exact Nat.not_lt_of_le later hticket
  · simp [h.isAlive_eq_false hslot dead] at alive

end Board

end Chip8
