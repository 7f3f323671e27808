import Chip8.Proofs.Snapshot

/-!
# Key updates

Presses and releases nest, since listeners press and release keys while they are told of a press.
Still every one of them counts: at any moment a key is down if the latest of them that began took
it down. A press tells its audience if it takes the key from up to down, and otherwise nobody.

* `updates`, `isDownAfter`, `rises`: what a history tells of one key.
* `Board.Recorded`: how the keys that are down, and the dispatches, agree with the history.
* `Change.recorded`, `Moment.recorded`: every change keeps this, so it holds at every moment.
* `Board.PressKept`: what a press does to the keys, and its listeners with them.
* `Moment.no_update_lost`: the main theorem.
-/

namespace Chip8

/-- What an event does to a key: takes it down, takes it up, or nothing. -/
def Event.update? (key : UInt8) : Event → Option Bool
  | .pressed other => if other = key then some true else none
  | .released other => if other = key then some false else none
  | _ => none

/-- The presses and releases of a key in a history, the latest first. A press is `true`. -/
def updates (key : UInt8) (history : List Event) : List Bool :=
  history.filterMap (Event.update? key)

/-- Whether a press is the latest update of a key in a history. -/
def isDownAfter (key : UInt8) (history : List Event) : Bool := (updates key history).headD false

/-- How many of these updates, the latest first, take a key from up to down. -/
def rises : List Bool → ℕ
  | [] => 0
  | update :: earlier => rises earlier + (update && !earlier.headD false).toNat

/-- Whether the event is the start of a dispatch of a key. -/
def Event.isDispatchOf (key : UInt8) : Event → Bool
  | .dispatched _ other _ => other == key
  | _ => false

/-- How presses and the starts of dispatches alternate in a history, the latest event first. -/
structure EdgeTriggered (history : List Event) : Prop where
  /-- A press starts a dispatch if it takes a key down that is up, and only then. -/
  starts {key : UInt8} {later earlier : List Event}
      (h : history = later ++ .pressed key :: earlier) :
    (∃ rest number audience, later = rest ++ [.dispatched number key audience]) ↔
      isKey key = true ∧ isDownAfter key earlier = false
  /-- Only presses start dispatches. -/
  started {key : UInt8} {number : ℕ} {audience : List Slot} {later earlier : List Event}
      (h : history = later ++ .dispatched number key audience :: earlier) :
    ∃ before, earlier = .pressed key :: before

section History

variable {key other : UInt8} {event : Event} {history later : List Event}

theorem updates_cons (key : UInt8) (event : Event) (history : List Event) :
    updates key (event :: history) = (event.update? key).toList ++ updates key history := by
  unfold updates
  cases h : event.update? key with
  | none => simp [h]
  | some update => simp [h]

theorem updates_cons_of_none (h : event.update? key = none) :
    updates key (event :: history) = updates key history := by
  rw [updates_cons, h, Option.toList_none, List.nil_append]

theorem isDownAfter_cons_of_none (h : event.update? key = none) :
    isDownAfter key (event :: history) = isDownAfter key history := by
  unfold isDownAfter
  rw [updates_cons_of_none h]

theorem isDownAfter_pressed :
    isDownAfter key (.pressed other :: history) = (other == key || isDownAfter key history) := by
  unfold isDownAfter
  by_cases same : other = key
  · simp [updates_cons, Event.update?, same]
  · simp [updates_cons, Event.update?, same]

theorem isDownAfter_released :
    isDownAfter key (.released other :: history) = (other != key && isDownAfter key history) := by
  unfold isDownAfter
  by_cases same : other = key
  · simp [updates_cons, Event.update?, same]
  · simp [updates_cons, Event.update?, same]

theorem Event.IsRemark.update?_eq (h : event.IsRemark) : event.update? key = none := by
  cases event with
  | pressed other => exact h.elim
  | released other => exact h.elim
  | dispatched number other audience => exact h.elim
  | _ => rfl

theorem Event.IsRemark.isDispatchOf_eq (h : event.IsRemark) : event.isDispatchOf key = false := by
  cases event with
  | dispatched number other audience => exact h.elim
  | _ => rfl

/-- A key that is down stays down until it is released. -/
theorem isDownAfter_append {events : List Event} (h : isDownAfter key history = true)
    (hevents : .released key ∉ events) : isDownAfter key (events ++ history) = true := by
  induction events with
  | nil => exact h
  | cons event rest ih =>
    have down := ih fun hrest => hevents (List.mem_cons_of_mem _ hrest)
    cases hupdate : event.update? key with
    | none => exact (isDownAfter_cons_of_none hupdate).trans down
    | some update =>
      cases event with
      | pressed other => exact isDownAfter_pressed.trans (by simp [down])
      | released other =>
        have different : other ≠ key := fun same => hevents (by rw [same]; exact List.mem_cons_self)
        exact isDownAfter_released.trans (by simp [down, different])
      | _ => cases hupdate

theorem rises_pressed :
    rises (updates key (.pressed other :: history)) =
      rises (updates key history) + (other == key && !isDownAfter key history).toNat := by
  by_cases same : other = key
  · simp [updates_cons, Event.update?, rises, isDownAfter, same]
  · simp [updates_cons, Event.update?, same]

theorem rises_released :
    rises (updates key (.released other :: history)) = rises (updates key history) := by
  by_cases same : other = key
  · simp [updates_cons, Event.update?, rises, same]
  · simp [updates_cons, Event.update?, same]

/-! ## Presses and dispatches in a history -/

theorem ends_cons_iff (h : event.isDispatchOf key = true → later ≠ []) :
    (∃ rest number audience, event :: later = rest ++ [.dispatched number key audience]) ↔
      ∃ rest number audience, later = rest ++ [.dispatched number key audience] := by
  constructor
  · rintro ⟨rest, number, audience, split⟩
    cases rest with
    | nil =>
      obtain ⟨rfl, rfl⟩ := List.cons_eq_cons.mp split
      exact absurd rfl (h (by simp [Event.isDispatchOf]))
    | cons first rest =>
      obtain ⟨-, rfl⟩ := List.cons_eq_cons.mp split
      exact ⟨rest, number, audience, rfl⟩
  · rintro ⟨rest, number, audience, rfl⟩
    exact ⟨event :: rest, number, audience, rfl⟩

theorem edgeTriggered_nil : EdgeTriggered [] := ⟨fun h => by simp at h, fun h => by simp at h⟩

/-- Other events may happen at any time. -/
theorem EdgeTriggered.cons (h : EdgeTriggered history) (hpress : ∀ key, event ≠ .pressed key)
    (hdispatch : ∀ key, event.isDispatchOf key = false) : EdgeTriggered (event :: history) where
  starts {key later earlier} split := by
    rcases List.cons_eq_append_iff.mp split with ⟨rfl, same⟩ | ⟨later, rfl, rest⟩
    · exact absurd (List.cons_eq_cons.mp same).1.symm (hpress key)
    · rw [ends_cons_iff (by simp [hdispatch])]
      exact h.starts rest
  started {key number audience later earlier} split := by
    rcases List.cons_eq_append_iff.mp split with ⟨rfl, same⟩ | ⟨later, rfl, rest⟩
    · have other := hdispatch key
      rw [← (List.cons_eq_cons.mp same).1] at other
      simp [Event.isDispatchOf] at other
    · exact h.started rest

/-- A press of a key that is down, or of no key, starts nothing. -/
theorem EdgeTriggered.press (h : EdgeTriggered history)
    (hdown : isKey key = true → isDownAfter key history = true) :
    EdgeTriggered (.pressed key :: history) where
  starts {pressed later earlier} split := by
    rcases List.cons_eq_append_iff.mp split with ⟨rfl, same⟩ | ⟨later, rfl, rest⟩
    · obtain ⟨hkey, rfl⟩ := List.cons_eq_cons.mp same
      cases hkey
      simpa using hdown
    · rw [ends_cons_iff (by simp [Event.isDispatchOf])]
      exact h.starts rest
  started {pressed number audience later earlier} split := by
    rcases List.cons_eq_append_iff.mp split with ⟨rfl, same⟩ | ⟨later, rfl, rest⟩
    · cases (List.cons_eq_cons.mp same).1
    · exact h.started rest

/-- A press of a key that is up starts a dispatch. -/
theorem EdgeTriggered.setOut (h : EdgeTriggered history) (hkey : isKey key = true)
    (hup : isDownAfter key history = false) (number : ℕ) (audience : List Slot) :
    EdgeTriggered (.dispatched number key audience :: .pressed key :: history) where
  starts {pressed later earlier} split := by
    rcases List.cons_eq_append_iff.mp split with ⟨rfl, same⟩ | ⟨later, rfl, rest⟩
    · cases (List.cons_eq_cons.mp same).1
    · rcases List.cons_eq_append_iff.mp rest with ⟨rfl, same⟩ | ⟨later, rfl, inner⟩
      · cases same
        exact iff_of_true ⟨[], number, audience, rfl⟩ ⟨hkey, hup⟩
      · rw [ends_cons_iff (fun _ => List.cons_ne_nil _ _),
          ends_cons_iff (by simp [Event.isDispatchOf])]
        exact h.starts inner
  started {pressed number' audience' later earlier} split := by
    rcases List.cons_eq_append_iff.mp split with ⟨rfl, same⟩ | ⟨later, rfl, rest⟩
    · cases same
      exact ⟨history, rfl⟩
    · rcases List.cons_eq_append_iff.mp rest with ⟨rfl, same⟩ | ⟨later, rfl, inner⟩
      · cases (List.cons_eq_cons.mp same).1
      · exact h.started inner

end History

namespace Board

/-- How the keys of a board and its dispatches agree with its history. -/
structure Recorded (b : Board) : Prop where
  /-- The keys that are down are those that the latest update took down. -/
  isDown (key : UInt8) : b.held.isDown key = (isKey key && isDownAfter key b.history)
  /-- There are as many dispatches of a key as it went from up to down. -/
  count (key : UInt8) : b.history.countP (·.isDispatchOf key) =
    if isKey key then rises (updates key b.history) else 0
  /-- Each press starts a dispatch if the key was up, and only then. -/
  edges : EdgeTriggered b.history

variable {b c : Board}

theorem recorded_empty (pruning : Pruning) : (empty pruning).Recorded where
  isDown key := by
    have up : (empty pruning).held.isDown key = false := HeldKeys.isDown_allUp key
    rw [up]
    exact (Bool.and_false _).symm
  count key := by
    split
    · rfl
    · rfl
  edges := edgeTriggered_nil

/-- A remark may be made at any time. -/
theorem Recorded.remark (h : b.Recorded) {event : Event} (hremark : event.IsRemark) :
    (b.tell event).Recorded where
  isDown key := by
    refine (h.isDown key).trans (congrArg _ ?_)
    exact (isDownAfter_cons_of_none hremark.update?_eq).symm
  count key := by
    have uncounted : (event :: b.history).countP (·.isDispatchOf key) =
        b.history.countP (·.isDispatchOf key) :=
      List.countP_cons_of_neg (by simp [hremark.isDispatchOf_eq])
    have same : updates key (event :: b.history) = updates key b.history :=
      updates_cons_of_none hremark.update?_eq
    refine uncounted.trans ((h.count key).trans ?_)
    rw [← same]
    rfl
  edges := by
    refine h.edges.cons (fun key same => ?_) fun key => hremark.isDispatchOf_eq
    rw [same] at hremark
    exact hremark

/-- A release may happen at any time. -/
theorem Recorded.release (h : b.Recorded) (released : UInt8) :
    Recorded { b.tell (.released released) with held := b.held.release released } where
  isDown key := by
    have after : isDownAfter key (.released released :: b.history) =
        (released != key && isDownAfter key b.history) :=
      isDownAfter_released
    have keys := b.held.isDown_release released key
    rw [h.isDown key] at keys
    refine keys.trans ?_
    rw [Bool.and_left_comm]
    exact congrArg _ after.symm
  count key := by
    have uncounted : (Event.released released :: b.history).countP (·.isDispatchOf key) =
        b.history.countP (·.isDispatchOf key) :=
      List.countP_cons_of_neg (by simp [Event.isDispatchOf])
    refine uncounted.trans ((h.count key).trans ?_)
    rw [← rises_released]
    rfl
  edges := h.edges.cons (fun key same => by cases same) fun key => rfl

/-- A press of a key that is down, or of no key, may happen at any time. -/
theorem Recorded.press (h : b.Recorded) {pressed : UInt8}
    (hdown : isKey pressed = true → b.held.isDown pressed = true) :
    (b.tell (.pressed pressed)).Recorded := by
  have down : isKey pressed = true → isDownAfter pressed b.history = true := by
    intro hkey
    have down := hdown hkey
    rw [h.isDown, hkey, Bool.true_and] at down
    exact down
  refine ⟨fun key => ?_, fun key => ?_, h.edges.press down⟩
  · change b.held.isDown key = (isKey key && isDownAfter key (.pressed pressed :: b.history))
    rw [isDownAfter_pressed, h.isDown]
    by_cases same : pressed = key
    · subst same
      cases hkey : isKey pressed with
      | true => simp [down hkey]
      | false => rfl
    · rw [beq_eq_false_iff_ne.mpr same, Bool.false_or]
  · change (Event.pressed pressed :: b.history).countP (·.isDispatchOf key) =
      if isKey key then rises (updates key (.pressed pressed :: b.history)) else 0
    rw [rises_pressed, List.countP_cons_of_neg (by simp [Event.isDispatchOf]), h.count]
    split
    · next hkey =>
      by_cases same : pressed = key
      · subst same
        simp [down hkey]
      · simp [same]
    · rfl

/-- So may the press of a key that is up, if a dispatch sets out. -/
theorem Recorded.setOut (h : b.Recorded) {pressed : UInt8} (hkey : isKey pressed = true)
    (hup : b.held.isDown pressed = false) : (b.setOut pressed).Recorded := by
  have up : isDownAfter pressed b.history = false := by
    rw [h.isDown, hkey, Bool.true_and] at hup
    exact hup
  refine ⟨fun key => ?_, fun key => ?_, h.edges.setOut hkey up _ _⟩
  · change (b.held.press pressed).isDown key = (isKey key && isDownAfter key
      (.dispatched b.dispatches pressed b.audience :: .pressed pressed :: b.history))
    rw [isDownAfter_cons_of_none rfl, isDownAfter_pressed, HeldKeys.isDown_press, h.isDown]
    cases isKey key with
    | true => rfl
    | false => rfl
  · change (Event.dispatched b.dispatches pressed b.audience :: .pressed pressed ::
      b.history).countP (·.isDispatchOf key) = if isKey key then rises (updates key
        (.dispatched b.dispatches pressed b.audience :: .pressed pressed :: b.history)) else 0
    rw [updates_cons_of_none rfl, rises_pressed, List.countP_cons,
      List.countP_cons_of_neg (by simp [Event.isDispatchOf]), h.count]
    by_cases same : pressed = key
    · subst same
      simp [Event.isDispatchOf, hkey, up]
    · simp [Event.isDispatchOf, beq_eq_false_iff_ne.mpr same]

theorem Change.recorded (h : Change b c) (hb : b.Recorded) : c.Recorded := by
  cases h with
  | tell hremark _ => exact hb.remark hremark
  | setOut hkey hup => exact hb.setOut hkey hup
  | @press key hdown =>
    refine hb.press fun hkey => ?_
    rcases hdown with nokey | down
    · exact absurd hkey (Bool.eq_false_iff.mp nokey)
    · exact down
  | release key => exact hb.release key
  | _ => exact ⟨hb.isDown, hb.count, hb.edges⟩

theorem Evolves.recorded (h : b.Evolves c) (hb : b.Recorded) : c.Recorded :=
  h.invariant Change.recorded hb

theorem Moment.recorded (h : b.Moment) : b.Recorded :=
  h.invariant recorded_empty Change.recorded

/-- A byte that names no key is not down, and there is no dispatch of it. -/
theorem Recorded.not_isKey (h : b.Recorded) {key : UInt8} (hkey : isKey key = false) :
    b.held.isDown key = false ∧ ∀ number audience, .dispatched number key audience ∉ b.history := by
  refine ⟨HeldKeys.isDown_of_not_isKey _ hkey, fun number audience hmem => ?_⟩
  obtain ⟨later, earlier, split⟩ := List.append_of_mem hmem
  obtain ⟨before, rfl⟩ := h.edges.started split
  have pressed : b.history =
      (later ++ [.dispatched number key audience]) ++ .pressed key :: before := by
    rw [split, List.append_assoc]
    rfl
  have isKey_true := ((h.edges.starts pressed).mp ⟨later, number, audience, rfl⟩).1
  rw [hkey] at isKey_true
  cases isKey_true

/-! ## Presses -/

/-- What a press does to the keys, and its listeners with them. -/
structure PressKept (b : Board) (play : Play) (key : UInt8) : Prop where
  /-- It is told of when it begins, before anything that happens during it. -/
  begins : ∃ events, (b.press play key).history = events ++ .pressed key :: b.history
  /-- It starts a dispatch if the key was up, and only then. -/
  starts : (∃ events, (b.press play key).history =
      events ++ .dispatched b.dispatches key b.audience :: .pressed key :: b.history) ↔
    isKey key = true ∧ b.held.isDown key = false
  /-- Otherwise no key changes, and no dispatch is counted. -/
  ignored (h : ¬ (isKey key = true ∧ b.held.isDown key = false)) : Quiet b (b.press play key)
  /-- Every listener finds the key down at its turn, unless it was released meanwhile. -/
  seen (hkey : isKey key = true) (hup : b.held.isDown key = false) (before : List Slot)
      (slot : Slot) : ∃ events, ((b.atTurn play key before).heardBy b.dispatches key slot).history =
        events ++ .dispatched b.dispatches key b.audience :: .pressed key :: b.history ∧
      (.released key ∉ events →
        ((b.atTurn play key before).heardBy b.dispatches key slot).held.isDown key = true)
  /-- A turn leaves the keys as the listener's script left them, -/
  script {before : List Slot} {slot : Slot} {actions : List Action}
      (h : (b.atTurn play key before).isBusy slot = false)
      (hs : (b.atTurn play key before).device? slot = some (.script actions)) :
    (b.atTurn play key (before ++ [slot])).held =
      (play slot actions ((b.atTurn play key before).heardBy b.dispatches key slot)).held
  /-- and as it found them if no script is played. -/
  machine {before : List Slot} {slot : Slot} {m : Machine}
      (hm : (b.atTurn play key before).device? slot = some (.machine m)) :
    (b.atTurn play key (before ++ [slot])).held = (b.atTurn play key before).held
  skipped {before : List Slot} {slot : Slot} (h : (b.atTurn play key before).isBusy slot = true) :
    (b.atTurn play key (before ++ [slot])).held = (b.atTurn play key before).held
  /-- So does the whole press with what the last turn left. -/
  kept (hkey : isKey key = true) (hup : b.held.isDown key = false) :
    (b.press play key).held = (b.atTurn play key b.audience).held

theorem Recorded.pressKept (h : b.Recorded) {play : Play} (hplay : Responsive play) (key : UInt8) :
    b.PressKept play key where
  begins := by
    cases hkey : isKey key with
    | false =>
      rw [press_of_not_isKey hkey]
      exact ⟨[.reported (.pressIgnored key)], rfl⟩
    | true =>
      cases hheld : b.held.isDown key with
      | true => exact ⟨[], by rw [press_of_down hkey hheld]; rfl⟩
      | false =>
        have out := Evolves.setOut_atTurn hplay.evolves b key b.audience
        obtain ⟨events, told⟩ := out.history_suffix
        rw [press_of_up hkey hheld]
        refine ⟨.finished b.dispatches :: events ++ [.dispatched b.dispatches key b.audience], ?_⟩
        rw [List.append_assoc]
        exact congrArg _ told.symm
  starts := by
    constructor
    · rintro ⟨events, split⟩
      have after := (Evolves.press hplay.evolves b key).recorded h
      have pressed : (b.press play key).history =
          (events ++ [.dispatched b.dispatches key b.audience]) ++ .pressed key :: b.history := by
        rw [split, List.append_assoc]
        rfl
      obtain ⟨hkey, hup⟩ := (after.edges.starts pressed).mp ⟨events, b.dispatches, b.audience, rfl⟩
      exact ⟨hkey, by rw [h.isDown, hup, Bool.and_false]⟩
    · rintro ⟨hkey, hup⟩
      obtain ⟨events, told⟩ :=
        (Evolves.setOut_atTurn hplay.evolves b key b.audience).history_suffix
      rw [press_of_up hkey hup]
      exact ⟨.finished b.dispatches :: events, congrArg _ told.symm⟩
  ignored hnot := quiet_press_of_not_up fun hkey => by simpa [hkey] using hnot
  seen hkey hup before slot := by
    have counted := b.dispatches_lt_atTurn hplay.evolves key before
    have out : (b.setOut key).Evolves ((b.atTurn play key before).heardBy b.dispatches key slot) :=
      (Evolves.setOut_atTurn hplay.evolves b key before).trans (.heardBy counted key slot)
    obtain ⟨events, told⟩ := out.history_suffix
    refine ⟨events, told.symm, fun hevents => ?_⟩
    have now := out.recorded (h.setOut hkey hup)
    have down : isDownAfter key (b.setOut key).history = true :=
      (isDownAfter_cons_of_none rfl).trans (isDownAfter_pressed.trans (by simp))
    rw [now.isDown, hkey, ← told, isDownAfter_append down hevents]
    rfl
  script hfree hs := by
    rw [atTurn_append, turn_of_free hs hfree, deliver_eq]
    exact (Quiet.leave _ _ _).held
  machine {before slot m} hm := by
    rw [atTurn_append]
    cases busy : (b.atTurn play key before).isBusy slot with
    | true => exact (Quiet.turn_of_busy play _ key busy).held
    | false => exact (Quiet.turn_of_machine play _ key hm busy).held
  skipped hbusy := by
    rw [atTurn_append]
    exact (Quiet.turn_of_busy play _ key hbusy).held
  kept hkey hup := by
    rw [press_of_up hkey hup]
    rfl

/-- A release is told of when it begins. -/
theorem exists_release (b : Board) (key : UInt8) :
    ∃ events, (b.release key).history = events ++ .released key :: b.history := by
  unfold release
  simp only
  split
  · exact ⟨[], rfl⟩
  · exact ⟨[.reported (.releaseIgnored key)], rfl⟩

/-- **Main theorem.** At every moment, also in the middle of presses, the keys are what the presses
    and releases so far make of them in the order in which they began. Presses start dispatches when
    they take a key from up to down, and leave in force what their listeners do to the keys. -/
theorem Moment.no_update_lost (h : b.Moment) :
    b.Recorded ∧
      (∀ key, isKey key = false → b.held.isDown key = false ∧
        ∀ number audience, .dispatched number key audience ∉ b.history) ∧
      (∀ play key, Responsive play → b.PressKept play key) ∧
      ∀ key, ∃ events, (b.release key).history = events ++ .released key :: b.history :=
  ⟨h.recorded, fun _ hkey => h.recorded.not_isKey hkey,
    fun _ key hplay => h.recorded.pressKept hplay key, b.exists_release⟩

/-- A listener that releases the key it is told of and presses others, another one with it. -/
def rearranging : Board :=
  (empty .atDispatch).after 2
    [.plugScript [.release 5, .press 6, .press 20], .plugScript [.askKey 5, .askKey 6], .add 0,
      .add 1, .press 5, .press 6, .press 5]

theorem no_update_lost_of_rearranging :
    rearranging.dispatches = 3 ∧ updates 5 rearranging.history = [false, true, false, true] ∧
      updates 6 rearranging.history = [true, true, true] ∧
      rearranging.held.isDown 5 = false ∧ rearranging.held.isDown 6 = true ∧
      rearranging.Recorded ∧
      (∀ key, isKey key = false → rearranging.held.isDown key = false ∧
        ∀ number audience, .dispatched number key audience ∉ rearranging.history) ∧
      (∀ play key, Responsive play → rearranging.PressKept play key) ∧
      ∀ key, ∃ events,
        (rearranging.release key).history = events ++ .released key :: rearranging.history :=
  ⟨by decide, by decide, by decide, by decide, by decide,
    Moment.no_update_lost (.course (.start .atDispatch) (.after _ _ _))⟩

end Board

end Chip8
