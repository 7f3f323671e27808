import Chip8.Proofs.QuietActions

/-!
# The evolution of a board

Whatever is done to a board, and however deeply presses are nested in it, the board goes through a
sequence of single changes, each of them a change to one part of it. What every change keeps is
therefore kept throughout: not only by whole actions, but at any moment within them.

* `Board.Change`: the single changes.
* `Board.Evolves`: sequences of changes, and `Evolves.invariant`, what they keep.
* `underWay`, `atTurn`, `respond`: a press from when it sets out to its last turn, and
  `press_of_up`, that it is made of these.
* `Evolves.perform`: an action is a sequence of changes, if the responses to it are.
* `Evolves.history_suffix`, `Evolves.isAlive_eq_false`: what happened stays told, and what is dead
  stays dead.
-/

namespace Chip8

/-- The events that tell of no change: neither of keys nor of a dispatch that sets out. -/
def Event.IsRemark : Event → Prop
  | .pressed _ | .released _ | .dispatched _ _ _ => False
  | _ => True

/-- The number of the dispatch that an event belongs to. -/
def Event.number? : Event → Option ℕ
  | .dispatched number _ _ | .heard number _ _ | .done number _ | .skipped number _ _
  | .finished number => some number
  | .pressed _ | .released _ | .noted _ _ _ | .reported _ | .tooDeep _ => none

namespace Board

/-- The listeners that a dispatch tells of a key if it sets out now: the registered ones that are
    alive, in the order of their registrations. -/
def audience (b : Board) : List Slot := (b.registry.prune b.isAlive).audience

/-- The board when the press of a key that is up sets out to tell its audience. -/
def setOut (b : Board) (key : UInt8) : Board :=
  { b with
    held := b.held.press key
    registry := b.registry.prune b.isAlive
    dispatches := b.dispatches + 1
    history := .dispatched b.dispatches key b.audience :: .pressed key :: b.history }

/-- A single change to a board. -/
inductive Change : Board → Board → Prop where
  /-- A remark is made. If it belongs to a dispatch, that has set out before. -/
  | tell {b : Board} {event : Event} (h : event.IsRemark)
      (hnumber : ∀ number ∈ event.number?, number < b.dispatches) : Change b (b.tell event)
  /-- An outlet changes. Nothing brings a dead device back to life. -/
  | modify {b : Board} {slot : Slot} {f : Outlet → Outlet}
      (h : ∀ o, b.outlet? slot = some o → (f o).isAlive = true → o.isAlive = true) :
      Change b (b.modify slot f)
  /-- A device is plugged in. -/
  | plug {b : Board} (device : Device) : Change b (b.plug device).2
  /-- A device that is alive is registered. -/
  | register {b : Board} {slot : Slot} (h : b.isAlive slot = true) :
      Change b { b with registry := (b.registry.register slot).2.1 }
  /-- A ticket is given back. -/
  | unregister {b : Board} (ticket : Ticket) :
      Change b { b with registry := (b.registry.unregister ticket).1 }
  /-- A dead device is taken off the list. -/
  | forget {b : Board} {slot : Slot} (h : b.isAlive slot = false) :
      Change b { b with registry := b.registry.forget slot }
  /-- A key that is up is pressed, and a dispatch sets out. -/
  | setOut {b : Board} {key : UInt8} (hkey : isKey key = true) (hup : b.held.isDown key = false) :
      Change b (b.setOut key)
  /-- A press finds its key down already, or names no key. -/
  | press {b : Board} {key : UInt8} (h : isKey key = false ∨ b.held.isDown key = true) :
      Change b (b.tell (.pressed key))
  /-- A key is released. -/
  | release {b : Board} (key : UInt8) :
      Change b { b.tell (.released key) with held := b.held.release key }

/-- Sequences of changes. -/
def Evolves : Board → Board → Prop := Relation.ReflTransGen Change

variable {b c : Board} {slot : Slot}

theorem Change.evolves (h : Change b c) : b.Evolves c := Relation.ReflTransGen.single h

theorem Evolves.refl (b : Board) : b.Evolves b := Relation.ReflTransGen.refl

theorem Evolves.trans {d : Board} (h : b.Evolves c) (h' : c.Evolves d) : b.Evolves d :=
  Relation.ReflTransGen.trans h h'

/-- What every change keeps lasts. -/
theorem Evolves.invariant {P : Board → Prop} (hP : ∀ {b c : Board}, Change b c → P b → P c)
    (h : b.Evolves c) (hb : P b) : P c :=
  invariant_of_steps hP h hb

/-! ## Steps of a dispatch -/

theorem Evolves.report (b : Board) (entries : List Entry) : b.Evolves (b.report entries) := by
  refine related_report .refl .trans (fun b entry => ?_) b entries
  exact Change.evolves (.tell trivial (by simp [Event.number?]))

/-- Chores are changes. -/
theorem Chore.evolves {touched : Slot → Prop} (h : Chore touched b c) : b.Evolves c := by
  cases h with
  | report entries => exact .report b entries
  | setMachine _ m => exact Change.evolves (.modify fun _ _ alive => alive)
  | plug device => exact Change.evolves (.plug device)
  | empty _ =>
    refine Change.evolves (.modify fun o _ alive => ?_)
    simp only [Outlet.isAlive, Bool.false_or, Bool.or_eq_true] at alive ⊢
    exact .inr alive
  | register alive => exact Change.evolves (.register alive)
  | unregister ticket => exact Change.evolves (.unregister ticket)
  | forget dead => exact Change.evolves (.forget dead)

theorem Chores.evolves {touched : Slot → Prop} (h : Chores touched b c) : b.Evolves c :=
  h.keeps .refl .trans Chore.evolves

theorem Evolves.setMachine (b : Board) (slot : Slot) (m : Machine) :
    b.Evolves (b.setMachine slot m) :=
  Change.evolves (.modify fun _ _ alive => alive)

theorem Evolves.setBusy (b : Board) (slot : Slot) (busy : Bool) :
    b.Evolves (b.setBusy slot busy) :=
  Change.evolves (.modify fun _ _ alive => alive)

theorem Evolves.hold (h : b.isAlive slot = true) : b.Evolves (b.hold slot) := by
  obtain ⟨o, ho, alive⟩ := isAlive_eq_true_iff.mp h
  refine Change.evolves (.modify fun other hother _ => ?_)
  rw [ho, Option.some.injEq] at hother
  exact hother ▸ alive

theorem Evolves.letGo (b : Board) (slot : Slot) : b.Evolves (b.letGo slot) := by
  have changed : Change b (b.modify slot fun o => { o with holds := o.holds - 1 }) := by
    refine .modify fun o _ alive => ?_
    simp only [Outlet.isAlive, Bool.or_eq_true, decide_eq_true_eq] at alive ⊢
    exact alive.imp_right fun held => Nat.lt_of_lt_of_le held (Nat.sub_le _ _)
  exact changed.evolves.trans (chores_settle _ slot).evolves

/-! ## What lasts -/

/-- No dispatch is uncounted. -/
theorem Evolves.dispatches_le (h : b.Evolves c) : b.dispatches ≤ c.dispatches := by
  refine h.invariant (P := fun d => b.dispatches ≤ d.dispatches) ?_ le_rfl
  intro d e change hd
  cases change with
  | setOut hkey hup => exact Nat.le_succ_of_le hd
  | _ => exact hd

/-- What happened stays told. -/
theorem Evolves.history_suffix (h : b.Evolves c) : b.history <:+ c.history := by
  refine h.invariant (P := fun d => b.history <:+ d.history) ?_ List.suffix_rfl
  intro d e change hd
  cases change with
  | tell _ _ => exact hd.trans (List.suffix_cons _ _)
  | setOut _ _ => exact (hd.trans (List.suffix_cons _ _)).trans (List.suffix_cons _ _)
  | press _ => exact hd.trans (List.suffix_cons _ _)
  | release _ => exact hd.trans (List.suffix_cons _ _)
  | _ => exact hd

/-- A device that is dead stays dead. -/
theorem Evolves.isAlive_eq_false (h : b.Evolves c) (hslot : (b.outlet? slot).isSome = true)
    (dead : b.isAlive slot = false) : c.isAlive slot = false := by
  have lasts : (c.outlet? slot).isSome = true ∧ c.isAlive slot = false := by
    refine h.invariant (P := fun d => (d.outlet? slot).isSome = true ∧ d.isAlive slot = false)
      ?_ ⟨hslot, dead⟩
    rintro d e change ⟨there, dead⟩
    cases change with
    | @modify other f hf =>
      obtain ⟨o, ho⟩ := Option.isSome_iff_exists.mp there
      have died : o.isAlive = false := by simpa [isAlive, ho] using dead
      simp only [isAlive, outlet?_modify, ho, Option.map_some, Option.isSome_some, true_and,
        Option.any_some]
      split
      · next same =>
        subst same
        exact Bool.eq_false_iff.mpr fun alive => by simp [hf o ho alive] at died
      · exact died
    | plug device =>
      obtain ⟨o, ho⟩ := Option.isSome_iff_exists.mp there
      have died : o.isAlive = false := by simpa [isAlive, ho] using dead
      simp [isAlive, outlet?_plug_of_some ho device, died]
    | _ => exact ⟨there, dead⟩
  exact lasts.2

/-! ## Presses -/

/-- The board of a press under way, with its audience held and nobody told yet. -/
def underWay (b : Board) (key : UInt8) : Board := b.audience.foldl hold (b.setOut key)

/-- The board of a press under way when some listeners had their turns. -/
def atTurn (b : Board) (play : Play) (key : UInt8) (before : List Slot) : Board :=
  before.foldl (turn play b.dispatches key) (b.underWay key)

/-- The board when a listener begins to respond to the key of a dispatch. -/
def heardBy (b : Board) (number : ℕ) (key : UInt8) (slot : Slot) : Board :=
  (b.tell (.heard number slot key)).setBusy slot true

/-- How a device responds to a key. -/
def respond (play : Play) (b : Board) (key : UInt8) (slot : Slot) : Device → Board
  | .machine m => b.setMachine slot (m.hear key)
  | .script actions => play slot actions b

theorem deliver_eq (play : Play) (b : Board) (number : ℕ) (key : UInt8) (slot : Slot)
    (device : Device) :
    b.deliver play number key slot device =
      (((b.heardBy number key slot).respond play key slot device).setBusy slot false).tell
        (.done number slot) := by
  cases device with
  | machine m => rfl
  | script actions => rfl

theorem Evolves.heardBy {number : ℕ} (hnumber : number < b.dispatches) (key : UInt8)
    (slot : Slot) : b.Evolves (b.heardBy number key slot) := by
  have told : b.Evolves (b.tell (.heard number slot key)) :=
    Change.evolves (.tell trivial (by simpa [Event.number?] using hnumber))
  exact told.trans (.setBusy _ slot true)

/-- A listener is through with the key of a dispatch. -/
theorem Evolves.doneBy {number : ℕ} (hnumber : number < b.dispatches) (slot : Slot) :
    b.Evolves ((b.setBusy slot false).tell (.done number slot)) := by
  have lt : number < (b.setBusy slot false).dispatches := hnumber
  exact (Evolves.setBusy b slot false).trans
    (Change.evolves (.tell trivial (by simpa [Event.number?] using lt)))

/-- The press of a key that is up tells the whole audience. -/
theorem press_of_up {play : Play} {key : UInt8} (hkey : isKey key = true)
    (hup : b.held.isDown key = false) :
    b.press play key = (b.atTurn play key b.audience).tell (.finished b.dispatches) := by
  have up : (b.tell (.pressed key)).held.isDown key = false := hup
  simp only [press, hkey, up, ↓reduceIte, Bool.false_eq_true]
  rfl

theorem press_of_down {play : Play} {key : UInt8} (hkey : isKey key = true)
    (hdown : b.held.isDown key = true) : b.press play key = b.tell (.pressed key) := by
  have down : (b.tell (.pressed key)).held.isDown key = true := hdown
  simp only [press, hkey, down, ↓reduceIte]

theorem press_of_not_isKey {play : Play} {key : UInt8} (hkey : isKey key = false) :
    b.press play key = (b.tell (.pressed key)).report [.pressIgnored key] := by
  simp only [press, hkey, Bool.false_eq_true, ↓reduceIte]

theorem mem_audience_iff :
    slot ∈ b.audience ↔ slot ∈ b.registry.audience ∧ b.isAlive slot = true := by
  constructor
  · intro h
    obtain ⟨entry, hentry, rfl⟩ := List.mem_map.mp h
    obtain ⟨there, alive⟩ := List.mem_filter.mp hentry
    exact ⟨List.mem_map.mpr ⟨entry, there, rfl⟩, alive⟩
  · rintro ⟨there, alive⟩
    obtain ⟨entry, hentry, rfl⟩ := List.mem_map.mp there
    exact List.mem_map.mpr ⟨entry, List.mem_filter.mpr ⟨hentry, alive⟩, rfl⟩

theorem isAlive_of_mem_audience (h : slot ∈ b.audience) : b.isAlive slot = true :=
  (mem_audience_iff.mp h).2

theorem Evolves.underWay (b : Board) (key : UInt8) : (b.setOut key).Evolves (b.underWay key) := by
  refine related_foldl_hold .refl .trans .hold fun slot hslot => ?_
  have alive : b.isAlive slot = true := isAlive_of_mem_audience hslot
  exact alive

theorem dispatches_lt_underWay (b : Board) (key : UInt8) :
    b.dispatches < (b.underWay key).dispatches :=
  Nat.lt_of_lt_of_le (Nat.lt_succ_self _) (Evolves.underWay b key).dispatches_le

section Responses

variable {play : Play} (hplay : ∀ slot script (d : Board), d.Evolves (play slot script d))

include hplay

theorem Evolves.respond (b : Board) (key : UInt8) (slot : Slot) (device : Device) :
    b.Evolves (b.respond play key slot device) := by
  cases device with
  | machine m => exact .setMachine _ _ _
  | script actions => exact hplay _ _ _

theorem Evolves.deliver {number : ℕ} (hnumber : number < b.dispatches) (key : UInt8) (slot : Slot)
    (device : Device) : b.Evolves (b.deliver play number key slot device) := by
  have answered := (Evolves.heardBy hnumber key slot).trans (.respond hplay _ key slot device)
  rw [deliver_eq]
  exact answered.trans (.doneBy (hnumber.trans_le answered.dispatches_le) slot)

theorem Evolves.turn {number : ℕ} (hnumber : number < b.dispatches) (key : UInt8) (slot : Slot) :
    b.Evolves (Board.turn play number key b slot) := by
  unfold Board.turn
  refine Evolves.trans ?_ (.letGo _ slot)
  split
  · split
    · have told : Change b (b.tell (.skipped number slot key)) :=
        .tell trivial (by simpa [Event.number?] using hnumber)
      exact told.evolves.trans (.report _ _)
    · exact .deliver hplay hnumber key slot _
  · exact .refl b

theorem Evolves.foldl_turn {number : ℕ} (hnumber : number < b.dispatches) (key : UInt8)
    (slots : List Slot) : b.Evolves (slots.foldl (Board.turn play number key) b) := by
  induction slots generalizing b with
  | nil => exact .refl b
  | cons slot rest ih =>
    have first := Evolves.turn hplay hnumber key slot
    exact first.trans (ih (hnumber.trans_le first.dispatches_le))

theorem Evolves.setOut_atTurn (b : Board) (key : UInt8) (before : List Slot) :
    (b.setOut key).Evolves (b.atTurn play key before) :=
  (Evolves.underWay b key).trans (.foldl_turn hplay (b.dispatches_lt_underWay key) key before)

theorem Evolves.atTurn {key : UInt8} (hkey : isKey key = true) (hup : b.held.isDown key = false)
    (before : List Slot) : b.Evolves (b.atTurn play key before) :=
  (Change.setOut hkey hup).evolves.trans (.setOut_atTurn hplay b key before)

theorem dispatches_lt_atTurn (b : Board) (key : UInt8) (before : List Slot) :
    b.dispatches < (b.atTurn play key before).dispatches :=
  (Nat.lt_succ_self _).trans_le (Evolves.setOut_atTurn hplay b key before).dispatches_le

theorem Evolves.press (b : Board) (key : UInt8) : b.Evolves (b.press play key) := by
  cases hkey : isKey key with
  | false =>
    rw [press_of_not_isKey hkey]
    exact (Change.press (.inl hkey)).evolves.trans (.report _ _)
  | true =>
    cases hheld : b.held.isDown key with
    | true =>
      rw [press_of_down hkey hheld]
      exact (Change.press (.inr hheld)).evolves
    | false =>
      rw [press_of_up hkey hheld]
      have finished : Change (b.atTurn play key b.audience)
          ((b.atTurn play key b.audience).tell (.finished b.dispatches)) :=
        .tell trivial (by simpa [Event.number?] using b.dispatches_lt_atTurn hplay key b.audience)
      exact (Evolves.atTurn hplay hkey hheld b.audience).trans finished.evolves

theorem Evolves.pressBusy (h : b.isAlive slot = true) (key : UInt8) :
    b.Evolves (b.pressBusy play slot key) := by
  unfold Board.pressBusy
  have pressed := ((Evolves.hold h).trans (.setBusy _ slot true)).trans (.press hplay _ key)
  exact (pressed.trans (.setBusy _ slot false)).trans (.letGo _ slot)

/-! ## Actions -/

/-- An action is a sequence of changes, if the responses to it are. -/
theorem Evolves.perform (b : Board) (action : Action) : b.Evolves (b.perform play action).2 := by
  cases action with
  | press key => exact .press hplay b key
  | pressBusy slot key =>
    simp only [Board.perform]
    split
    · next hplugged =>
      split
      · exact .refl b
      · exact .pressBusy hplay (isAlive_of_plugged? hplugged) key
    · exact .refl b
  | release key =>
    simp only [Board.perform, Board.release]
    split
    · exact (Change.release key).evolves
    · next hkey =>
      have same : b.held.release key = b.held :=
        HeldKeys.release_of_not_isKey _ (Bool.eq_false_iff.mpr hkey)
      have released : Change b (b.tell (.released key)) := by
        have change := Change.release (b := b) key
        rw [same] at change
        exact change
      exact released.evolves.trans (.report _ _)
  | _ =>
    refine (chores_perform ?_ b).evolves
    trivial

end Responses

end Board

end Chip8
