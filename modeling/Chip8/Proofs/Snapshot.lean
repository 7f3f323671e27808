import Chip8.Proofs.Balance
import Chip8.Proofs.Registrations
import Mathlib.Data.List.Induction

/-!
# A dispatch works on a snapshot

When a press sets out, its audience is settled: whatever the listeners do at their turns, press
keys themselves included, the dispatch turns to the registrations that were there and alive when
it started, in the order of their tickets, and to each once.

* `Board.SetsOut`: a press that sets out at some moment of a run.
* `Board.dispatchEvents`: what is told of its dispatch, read off the board on which it starts.
* `eventsOf_turn`, `eventsOf_atTurn`: what is told in one turn, and in several.
* `Board.Snapshot`, `SetsOut.snapshot`: all that a snapshot settles.
* `snapshot_of_dispatch`: every dispatch of a course of actions works on one, however deeply it is
  nested in others.
-/

namespace Chip8.Board

/-- A press of a key that is up sets out at some moment of a run. -/
structure SetsOut (b : Board) (play : Play) (key : UInt8) : Prop where
  moment : b.Moment
  responsive : Responsive play
  isKey : isKey key = true
  isUp : b.held.isDown key = false

/-- What is told of a listener's turn in the dispatch that starts on a board. -/
def turnEvents (b : Board) (key : UInt8) (slot : Slot) : List Event :=
  if b.isBusy slot then [.skipped b.dispatches slot key]
  else [.heard b.dispatches slot key, .done b.dispatches slot]

/-- What is told of the dispatch that starts on a board. -/
def dispatchEvents (b : Board) (key : UInt8) : List Event :=
  .dispatched b.dispatches key b.audience :: b.audience.flatMap (b.turnEvents key) ++
    [.finished b.dispatches]

variable {play : Play} {key : UInt8} {number : ℕ} {slot : Slot} {before after : List Slot}
  {b c d : Board}

/-- Nothing is told of dispatches that are yet to come. -/
theorem Moment.eventsOf_eq_nil (h : b.Moment) : ∀ number, b.dispatches ≤ number →
    b.eventsOf number = [] := by
  refine h.invariant (P := fun b => ∀ number, b.dispatches ≤ number → b.eventsOf number = [])
    (fun _ _ _ => rfl) ?_
  intro b c change hb number hle
  cases change with
  | @tell event _ hnumber =>
    have other : event.number? ≠ some number := fun same =>
      absurd (hnumber number same) (Nat.not_lt_of_le hle)
    exact (eventsOf_tell_other other b).trans (hb number hle)
  | @setOut key hkey hup =>
    have lt : b.dispatches < number := hle
    have told : (b.setOut key).eventsOf number =
        ((b.tell (.pressed key)).tell (.dispatched b.dispatches key b.audience)).eventsOf number :=
      rfl
    rw [told, eventsOf_tell_other (by simpa [Event.number?] using lt.ne),
      eventsOf_tell_other (by simp [Event.number?])]
    exact hb number lt.le
  | press _ => exact (eventsOf_tell_other (by simp [Event.number?]) b).trans (hb number hle)
  | release key => exact (eventsOf_tell_other (by simp [Event.number?]) b).trans (hb number hle)
  | _ => exact hb number hle

/-! ## Turns -/

theorem atTurn_append (b : Board) (play : Play) (key : UInt8) (before : List Slot) (slot : Slot) :
    b.atTurn play key (before ++ [slot]) =
      turn play b.dispatches key (b.atTurn play key before) slot := by
  unfold atTurn
  rw [List.foldl_append]
  rfl

/-- What is told in the turn of a listener. -/
theorem eventsOf_turn (hplay : Responsive play) (hnumber : number < b.dispatches)
    (hsome : (b.outlet? slot).isSome = true) :
    (turn play number key b slot).eventsOf number = b.eventsOf number ++
      if b.isBusy slot then [.skipped number slot key]
      else [.heard number slot key, .done number slot] := by
  cases busy : b.isBusy slot with
  | true =>
    rw [turn_of_busy busy, eventsOf_letGo, eventsOf_report, eventsOf_tell_self rfl, if_pos rfl]
  | false =>
    obtain ⟨o, ho⟩ := Option.isSome_iff_exists.mp hsome
    have hdevice : b.device? slot = some o.device := device?_of_outlet? ho
    have heard : (b.heardBy number key slot).eventsOf number =
        b.eventsOf number ++ [.heard number slot key] :=
      eventsOf_tell_self rfl b
    have answered : Kept (fun n => n < b.dispatches) [] (b.heardBy number key slot)
        ((b.heardBy number key slot).respond play key slot o.device) :=
      .respond hplay.kept (b := b.heardBy number key slot) (fun _ hn => hn) key slot o.device
    have told := (answered.eventsOf_eq hnumber).trans heard
    have free (c : Board) : (c.setBusy slot false).eventsOf number = c.eventsOf number := rfl
    rw [turn_of_free hdevice busy, eventsOf_letGo, deliver_eq, eventsOf_tell_self rfl, free, told,
      List.append_assoc]
    rfl

/-- A machine that is free at its turn hears the key. -/
theorem machine_turn_of_free {m : Machine} (hdevice : b.device? slot = some (.machine m))
    (hfree : b.isBusy slot = false) :
    ∃ m', (turn play number key b slot).device? slot = some (.machine m') ∧
      m'.state = m.state.hear key ∧ m'.source = m.source := by
  have heard : (b.deliver play number key slot (.machine m)).device? slot =
      some (.machine (m.hear key)) := by
    have there : (b.heardBy number key slot).device? slot = some (.machine m) :=
      (device?_setBusy _ _ _ _).trans hdevice
    rw [deliver_eq]
    exact (device?_setBusy _ _ _ _).trans (device?_setMachine there _)
  rw [turn_of_free hdevice hfree]
  exact machine_letGo heard

section SetsOut

variable (h : b.SetsOut play key)

include h

/-- A listener whose turn is to come is held on to, and is busy only if it was from the start. -/
theorem SetsOut.outlet_atTurn (haudience : b.audience = before ++ slot :: after) :
    ∃ o o', b.outlet? slot = some o ∧ (b.atTurn play key before).outlet? slot = some o' ∧
      o.holds < o'.holds ∧ o'.busy = o.busy := by
  have there : slot ∈ b.audience := by simp [haudience]
  obtain ⟨o, ho, -⟩ := isAlive_eq_true_iff.mp (isAlive_of_mem_audience there)
  obtain ⟨o', ho', holds, busy⟩ := Board.outlet_atTurn h.responsive.kept key haudience ho
  rw [List.count_cons_self] at holds
  exact ⟨o, o', ho, ho', by omega, busy⟩

theorem SetsOut.isAlive_atTurn (haudience : b.audience = before ++ slot :: after) :
    (b.atTurn play key before).isAlive slot = true := by
  obtain ⟨o, o', -, ho', holds, -⟩ := h.outlet_atTurn haudience
  refine isAlive_eq_true_iff.mpr ⟨o', ho', ?_⟩
  simp [Outlet.isAlive, Nat.zero_lt_of_lt holds]

theorem SetsOut.isBusy_atTurn (haudience : b.audience = before ++ slot :: after) :
    (b.atTurn play key before).isBusy slot = b.isBusy slot := by
  obtain ⟨o, o', ho, ho', -, busy⟩ := h.outlet_atTurn haudience
  simp [isBusy, ho, ho', busy]

/-- What is told after the turns of some listeners. -/
theorem SetsOut.eventsOf_atTurn (haudience : b.audience = before ++ after) :
    (b.atTurn play key before).eventsOf b.dispatches =
      .dispatched b.dispatches key b.audience :: before.flatMap (b.turnEvents key) := by
  induction before using List.reverseRecOn generalizing after with
  | nil =>
    obtain ⟨outlets, hunderWay⟩ := (b.setOut key).exists_foldl_hold b.audience
    have told : (b.atTurn play key []).eventsOf b.dispatches =
        ((b.tell (.pressed key)).tell (.dispatched b.dispatches key b.audience)).eventsOf
          b.dispatches := by
      unfold atTurn underWay
      rw [List.foldl_nil, hunderWay]
      rfl
    rw [told, eventsOf_tell_self rfl, eventsOf_tell_other (by simp [Event.number?]),
      h.moment.eventsOf_eq_nil _ le_rfl]
    rfl
  | append_singleton before slot ih =>
    have split : b.audience = before ++ slot :: after := by simp [haudience]
    obtain ⟨o, o', -, ho', -⟩ := h.outlet_atTurn split
    have there : ((b.atTurn play key before).outlet? slot).isSome = true := by
      rw [ho', Option.isSome_some]
    have counted := b.dispatches_lt_atTurn h.responsive.evolves key before
    rw [atTurn_append, eventsOf_turn h.responsive counted there, ih split, h.isBusy_atTurn split,
      List.flatMap_append, List.flatMap_singleton]
    rfl

/-- What is told of a dispatch once it is over. -/
theorem SetsOut.eventsOf_press :
    (b.press play key).eventsOf b.dispatches = b.dispatchEvents key := by
  rw [press_of_up h.isKey h.isUp, eventsOf_tell_self rfl,
    h.eventsOf_atTurn (List.append_nil _).symm]
  rfl

/-- Nothing is added later to what was told of a dispatch. -/
theorem SetsOut.eventsOf_course (hc : Course (b.press play key) c) :
    c.eventsOf b.dispatches = b.dispatchEvents key := by
  have counted : b.dispatches < (b.press play key).dispatches := by
    rw [press_of_up h.isKey h.isUp]
    exact b.dispatches_lt_atTurn h.responsive.evolves key b.audience
  rw [hc.kept.eventsOf_eq counted, h.eventsOf_press]

/-- A listener that is busy at its turn is left as it is. -/
theorem SetsOut.device?_of_busy (haudience : b.audience = before ++ slot :: after)
    (hbusy : (b.atTurn play key before).isBusy slot = true) :
    (b.atTurn play key (before ++ [slot])).device? slot =
      (b.atTurn play key before).device? slot := by
  obtain ⟨o, o', ho, ho', holds, busy⟩ := h.outlet_atTurn haudience
  -- Whoever is using it holds on to it, too, so it outlives the hold of the dispatch.
  have used : o.busy = true := by
    rw [← busy]
    simpa [isBusy, ho'] using hbusy
  have held := h.moment.busyHeld slot o ho used
  have skipped := ((b.atTurn play key before).tell (.skipped b.dispatches slot key)).outlet?_report
    [.pressDropped key] slot
  rw [atTurn_append, turn_of_busy hbusy, device?_letGo_of_held (skipped.trans ho') (by omega),
    device?_report]
  rfl

end SetsOut

/-! ## Snapshots -/

/-- What the turn of a listener in a dispatch is like. -/
structure Turn (b : Board) (play : Play) (key : UInt8) (before : List Slot) (slot : Slot) :
    Prop where
  /-- The listener lives, whatever was done to it since the dispatch started. -/
  alive : (b.atTurn play key before).isAlive slot = true
  /-- It hears the key if it is not busy at that moment, and is left out otherwise. -/
  told : (b.atTurn play key (before ++ [slot])).eventsOf b.dispatches =
    (b.atTurn play key before).eventsOf b.dispatches ++
      if (b.atTurn play key before).isBusy slot then [.skipped b.dispatches slot key]
      else [.heard b.dispatches slot key, .done b.dispatches slot]
  /-- It is busy only if it was when the dispatch started. -/
  busy : (b.atTurn play key before).isBusy slot = b.isBusy slot
  /-- A listener that is left out stays as it is. -/
  skipped (h : (b.atTurn play key before).isBusy slot = true) :
    (b.atTurn play key (before ++ [slot])).device? slot =
      (b.atTurn play key before).device? slot
  /-- A machine that hears the key is what that makes of it. -/
  machine {m : Machine} (h : (b.atTurn play key before).isBusy slot = false)
      (hm : (b.atTurn play key before).device? slot = some (.machine m)) :
    ∃ m', (b.atTurn play key (before ++ [slot])).device? slot = some (.machine m') ∧
      m'.state = m.state.hear key ∧ m'.source = m.source
  /-- A script that hears the key is played, and then the dispatch lets go of its listener. -/
  script {actions : List Action} (h : (b.atTurn play key before).isBusy slot = false)
      (hs : (b.atTurn play key before).device? slot = some (.script actions)) :
    b.atTurn play key (before ++ [slot]) =
      (((play slot actions ((b.atTurn play key before).heardBy b.dispatches key slot)).setBusy slot
        false).tell (.done b.dispatches slot)).letGo slot

/-- What it means that the dispatch of a press works on a snapshot. -/
structure Snapshot (b : Board) (play : Play) (key : UInt8) : Prop where
  /-- Its audience are the registrations that are there and alive when it starts, -/
  audience : b.audience = b.invited.map (·.slot)
  mem_invited (entry : Registration) :
    entry ∈ b.invited ↔ entry ∈ b.registry.entries ∧ b.isAlive entry.slot = true
  /-- in the order in which they were made, -/
  order : b.invited.Pairwise fun first later => first.ticket.number < later.ticket.number
  /-- and each listener is there once. -/
  once : b.audience.Nodup
  /-- It turns to its audience and to nobody else, in this order. -/
  turns : b.press play key = (b.atTurn play key b.audience).tell (.finished b.dispatches)
  /-- What is told of it depends on the board on which it starts only, and is not added to later. -/
  events {c : Board} (hc : Course (b.press play key) c) :
    c.eventsOf b.dispatches = b.dispatchEvents key
  /-- What the turns are like. -/
  turn {before after : List Slot} {slot : Slot} (h : b.audience = before ++ slot :: after) :
    b.Turn play key before slot
  /-- A registration that is gone at some later moment, or whose listener is dead, is not in the
      audience of any dispatch that starts then or after it. -/
  gone {c d : Board} (hc : b.Evolves c) (hd : c.Evolves d) {entry : Registration}
      (hentry : entry ∈ b.registry.entries)
      (h : entry ∉ c.registry.entries ∨ c.isAlive entry.slot = false) : entry ∉ d.invited
  /-- Removing a registration makes it gone. -/
  removed {c : Board} (hc : c.Moment) (entry : Registration) :
    entry ∉ (c.cancel entry.ticket).registry.entries
  /-- A registration that is made later is not in the audience. -/
  added {entry : Registration} (h : b.registry.next ≤ entry.ticket.number) : entry ∉ b.invited

theorem Moment.not_mem_cancel (h : b.Moment) (entry : Registration) :
    entry ∉ (b.cancel entry.ticket).registry.entries := by
  rw [registry_cancel, h.ordered.entries_unregister]
  simp

theorem SetsOut.turn (h : b.SetsOut play key) (haudience : b.audience = before ++ slot :: after) :
    b.Turn play key before slot where
  alive := h.isAlive_atTurn haudience
  told := by
    obtain ⟨o, o', -, ho', -⟩ := h.outlet_atTurn haudience
    have counted := b.dispatches_lt_atTurn h.responsive.evolves key before
    rw [atTurn_append, eventsOf_turn h.responsive counted (by rw [ho', Option.isSome_some])]
  busy := h.isBusy_atTurn haudience
  skipped hbusy := h.device?_of_busy haudience hbusy
  machine hfree hm := by
    rw [atTurn_append]
    exact machine_turn_of_free hm hfree
  script hfree hs := by
    rw [atTurn_append, turn_of_free hs hfree]
    rfl

/-- The dispatch of a press works on a snapshot. -/
theorem SetsOut.snapshot (h : b.SetsOut play key) : b.Snapshot play key where
  audience := rfl
  mem_invited _ := mem_invited_iff
  order := (h.moment.ordered.prune b.isAlive).ascending
  once := (h.moment.ordered.prune b.isAlive).nodup
  turns := press_of_up h.isKey h.isUp
  events hc := h.eventsOf_course hc
  turn haudience := h.turn haudience
  gone hc hd entry hentry hgone := by
    have ticket := h.moment.ordered.lt_next hentry
    have there := h.moment.outlet_of_mem entry hentry
    exact hd.not_mem_invited (ticket.trans_le hc.next_le) (hc.outlet?_isSome there) hgone
  removed hc entry := hc.not_mem_cancel entry
  added {entry} hticket hinvited := by
    have there := (mem_invited_iff.mp hinvited).1
    exact Nat.not_lt_of_le hticket (h.moment.ordered.lt_next there)

/-! ## Every dispatch -/

/-- The dispatch of this number is over on `c`, and was that of a press which set out on or after
    `b`. -/
def Traced (number : ℕ) (b c : Board) : Prop :=
  ∃ (d : Board) (play : Play) (key : UInt8), d.SetsOut play key ∧ d.dispatches = number ∧
    b.Evolves d ∧ (d.press play key).Evolves c ∧ c.eventsOf number = d.dispatchEvents key

theorem Traced.later (h : Traced number b c) (hcd : c.Evolves d)
    (heq : d.eventsOf number = c.eventsOf number) : Traced number b d := by
  obtain ⟨start, play, key, out, count, before, after, events⟩ := h
  exact ⟨start, play, key, out, count, before, after.trans hcd, heq.trans events⟩

theorem Traced.earlier (h : Traced number c d) (hbc : b.Evolves c) : Traced number b d := by
  obtain ⟨start, play, key, out, count, before, after, events⟩ := h
  exact ⟨start, play, key, out, count, hbc.trans before, after, events⟩

/-- Every dispatch that started between two boards is traced. -/
def AllTraced (b c : Board) : Prop :=
  ∀ number, b.dispatches ≤ number → number < c.dispatches → Traced number b c

theorem AllTraced.of_dispatches_eq (h : c.dispatches = b.dispatches) : AllTraced b c := by
  intro number hle hlt
  rw [h] at hlt
  omega

section Responses

variable (hplay : Responsive play)
  (htraced : ∀ slot script (d : Board), d.Moment → AllTraced d (play slot script d))

include hplay htraced

/-- The dispatches that start while a listener has its turn are traced. -/
theorem SetsOut.traced_turn (h : b.SetsOut play key)
    (haudience : b.audience = before ++ slot :: after) (hlt : b.dispatches < number)
    (hle : (b.atTurn play key before).dispatches ≤ number)
    (hnumber : number < (b.atTurn play key (before ++ [slot])).dispatches) :
    Traced number b (b.atTurn play key (before ++ [slot])) := by
  obtain ⟨o, o', -, ho', -⟩ := h.outlet_atTurn haudience
  have told : b.Evolves (b.atTurn play key before) := .atTurn hplay.evolves h.isKey h.isUp before
  have counted := b.dispatches_lt_atTurn hplay.evolves key before
  rw [atTurn_append] at hnumber ⊢
  cases busy : (b.atTurn play key before).isBusy slot with
  | true =>
    have quiet := Quiet.turn_of_busy play b.dispatches key busy
    exact absurd (quiet.dispatches ▸ hnumber) (Nat.not_lt_of_le hle)
  | false =>
    have hdevice : (b.atTurn play key before).device? slot = some o'.device :=
      device?_of_outlet? ho'
    cases hscript : o'.device with
    | machine m =>
      have quiet := Quiet.turn_of_machine play b.dispatches key (hscript ▸ hdevice) busy
      exact absurd (quiet.dispatches ▸ hnumber) (Nat.not_lt_of_le hle)
    | script actions =>
      rw [hscript] at hdevice
      rw [turn_of_free hdevice busy, deliver_eq] at hnumber ⊢
      have response : ((b.atTurn play key before).heardBy b.dispatches key slot).Moment :=
        .response h.moment hplay h.isKey h.isUp haudience hdevice busy
      have quiet := Quiet.leave (play slot actions
        ((b.atTurn play key before).heardBy b.dispatches key slot)) b.dispatches slot
      have traced := htraced slot actions _ response number hle (quiet.dispatches ▸ hnumber)
      refine (traced.earlier (told.trans (.heardBy counted key slot))).later ?_ ?_
      · refine (Evolves.doneBy ?_ slot).trans (.letGo _ slot)
        have heard := Evolves.heardBy counted key slot
        exact counted.trans_le (heard.trans (hplay.evolves slot actions _)).dispatches_le
      · rw [eventsOf_letGo]
        exact eventsOf_tell_other (by simpa [Event.number?] using hlt.ne) _

/-- The dispatches that start during the turns of a press are traced. -/
theorem SetsOut.traced_atTurn (h : b.SetsOut play key) (haudience : b.audience = before ++ after)
    (hlt : b.dispatches < number) (hnumber : number < (b.atTurn play key before).dispatches) :
    Traced number b (b.atTurn play key before) := by
  induction before using List.reverseRecOn generalizing after with
  | nil =>
    obtain ⟨outlets, hunderWay⟩ := (b.setOut key).exists_foldl_hold b.audience
    have count : (b.atTurn play key []).dispatches = b.dispatches + 1 := by
      unfold atTurn underWay
      rw [List.foldl_nil, hunderWay]
      rfl
    omega
  | append_singleton before slot ih =>
    have split : b.audience = before ++ slot :: after := by simp [haudience]
    by_cases earlier : number < (b.atTurn play key before).dispatches
    · obtain ⟨o, o', -, ho', holds, -⟩ := h.outlet_atTurn split
      have held : (b.atTurn play key before).Holds [slot] := by
        intro other hother
        rw [List.mem_singleton.mp hother]
        exact ⟨o', ho', by rw [List.count_singleton_self]; omega⟩
      have kept : Kept (fun n => n < (b.atTurn play key before).dispatches ∧ n ≠ b.dispatches)
          [slot] _ (Board.turn play b.dispatches key (b.atTurn play key before) slot) :=
        .turn hplay.kept (fun hn => hn.2 rfl) (fun _ hn => hn.1) key held
      rw [atTurn_append]
      refine (ih split earlier).later ?_ (kept.eventsOf_eq ⟨earlier, hlt.ne'⟩)
      exact .turn hplay.evolves (b.dispatches_lt_atTurn hplay.evolves key before) key slot
    · exact h.traced_turn hplay htraced split hlt (Nat.le_of_not_lt earlier) hnumber

/-- The dispatch of a press is traced, and so are those that start during it. -/
theorem AllTraced.press (hb : b.Moment) (key : UInt8) : AllTraced b (b.press play key) := by
  by_cases hup : isKey key = true ∧ b.held.isDown key = false
  · have h : b.SetsOut play key := ⟨hb, hplay, hup.1, hup.2⟩
    intro number hle hnumber
    rcases hle.eq_or_lt with rfl | hlt
    · exact ⟨b, play, key, h, rfl, .refl b, .refl _, h.eventsOf_press⟩
    · rw [press_of_up hup.1 hup.2] at hnumber ⊢
      refine (h.traced_atTurn hplay htraced (List.append_nil _).symm hlt hnumber).later ?_ ?_
      · have counted := b.dispatches_lt_atTurn hplay.evolves key b.audience
        exact Change.evolves (.tell trivial (by simpa [Event.number?] using counted))
      · exact eventsOf_tell_other (by simpa [Event.number?] using hlt.ne) _
  · have quiet : Quiet b (b.press play key) :=
      quiet_press_of_not_up fun hkey => by simpa [hkey] using hup
    exact .of_dispatches_eq quiet.dispatches

theorem AllTraced.pressBusy (hb : b.Moment) (hplugged : (b.plugged? slot).isSome = true)
    (hfree : b.isBusy slot = false) (key : UInt8) : AllTraced b (b.pressBusy play slot key) := by
  intro number hle hnumber
  have borrowed : ((b.hold slot).setBusy slot true).Moment := .borrow hb hplugged hfree
  have quiet := Quiet.giveBack (((b.hold slot).setBusy slot true).press play key) slot
  have traced := AllTraced.press hplay htraced borrowed key number hle (quiet.dispatches ▸ hnumber)
  have held := Evolves.hold (isAlive_of_plugged? hplugged)
  refine (traced.earlier (held.trans (.setBusy _ slot true))).later ?_ ?_
  · exact (Evolves.setBusy _ slot false).trans (.letGo _ slot)
  · exact eventsOf_letGo _ slot number

theorem AllTraced.perform (hb : b.Moment) (action : Action) :
    AllTraced b (b.perform play action).2 := by
  cases action with
  | press key => exact .press hplay htraced hb key
  | pressBusy slot key =>
    simp only [Board.perform]
    split
    · next hplugged =>
      split
      · exact .of_dispatches_eq rfl
      · next free =>
        exact .pressBusy hplay htraced hb hplugged (Bool.eq_false_iff.mpr free) key
    · exact .of_dispatches_eq rfl
  | release key =>
    simp only [Board.perform, Board.release]
    split
    · exact .of_dispatches_eq rfl
    · exact .of_dispatches_eq (Quiet.report _ _).dispatches
  | _ =>
    refine .of_dispatches_eq (Quiet.dispatches (Quiet.perform ?_ b))
    trivial

end Responses

theorem Course.allTraced (h : Course b c) : b.Moment → AllTraced b c := by
  induction h with
  | stay b => exact fun _ => .of_dispatches_eq rfl
  | @act b c play hplay action hc ihplay ih =>
    intro hb number hle hnumber
    by_cases earlier : number < c.dispatches
    · refine (ih hb number hle earlier).later (.perform (Responsive.evolves hplay) c action) ?_
      exact (Kept.perform (Responsive.kept hplay) c action).eventsOf_eq earlier
    · have traced := AllTraced.perform hplay ihplay (.course hb hc) action number
        (Nat.le_of_not_lt earlier) hnumber
      exact traced.earlier hc.evolves
  | note hnote hc ih =>
    intro hb number hle hnumber
    refine (ih hb number hle hnumber).later ?_ ?_
    · exact Change.evolves (.tell hnote.isRemark (by simp [hnote.number?_eq]))
    · exact eventsOf_tell_other (by simp [hnote.number?_eq]) _

/-- **Main theorem.** Every dispatch of a course of actions, nested ones included, works on a
    snapshot. -/
theorem snapshot_of_dispatch (hb : b.Moment) (h : Course b c) (hle : b.dispatches ≤ number)
    (hlt : number < c.dispatches) :
    ∃ (d : Board) (play : Play) (key : UInt8), d.SetsOut play key ∧ d.dispatches = number ∧
      b.Evolves d ∧ (d.press play key).Evolves c ∧ c.eventsOf number = d.dispatchEvents key ∧
      d.Snapshot play key := by
  obtain ⟨d, play, key, out, count, before, after, events⟩ := h.allTraced hb number hle hlt
  exact ⟨d, play, key, out, count, before, after, events, out.snapshot⟩

/-- A listener that removes and unplugs the one after it, while both are told of a key. -/
def removal : Board :=
  (empty .atDispatch).after 1
    [.plugScript [.remove ⟨1⟩, .unplug 1], .plugScript [], .add 0, .add 1, .press 5, .release 5,
      .press 5]

theorem snapshot_of_removal :
    removal.eventsOf 0 = [.dispatched 0 5 [0, 1], .heard 0 0 5, .done 0 0, .heard 0 1 5, .done 0 1,
        .finished 0] ∧
      removal.eventsOf 1 = [.dispatched 1 5 [0], .heard 1 0 5, .done 1 0, .finished 1] ∧
      ∃ (d : Board) (play : Play) (key : UInt8), d.SetsOut play key ∧ d.dispatches = 0 ∧
        (empty .atDispatch).Evolves d ∧ (d.press play key).Evolves removal ∧
        removal.eventsOf 0 = d.dispatchEvents key ∧ d.Snapshot play key :=
  ⟨rfl, rfl, snapshot_of_dispatch (.start .atDispatch) (.after _ _ _) (le_refl 0) (by decide)⟩

end Chip8.Board
