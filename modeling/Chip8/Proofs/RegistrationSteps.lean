import Chip8.Proofs.ActionParts
import Chip8.Proofs.Trace

/-!
# Steps in which registrations change

What a machine remembers of its subscription and what the registry knows of it are changed
together: by attaching and detaching a machine, and when it dies. Between two of these steps other
listeners come and go, and the dead are taken off the list. No press interrupts any such step, so
what all of them keep holds at every moment.

Some actions may be ruled out, depending on the board they meet. Then only the scripts that are
really played have to observe this.

* `Board.CourseOf`, `Board.MomentOf`: courses of actions that are allowed, and their moments.
* `CourseOf.course`, `Course.courseOf`: they are courses, and all courses if everything is allowed.
* `Board.Dealing`: the steps in which registrations and subscriptions change.
* `CourseOf.dealings`, `MomentOf.dealings`: nothing else happens, however deeply presses are nested.
* `CourseOf.hearing`: scripts that consist of allowed actions are courses of such.
-/

namespace Chip8

/-- What a device remembers of its subscription, if it is a machine. -/
def Device.subscription? : Device → Option Subscription
  | .machine m => some m.subscription
  | .script _ => none

namespace Board

/-- What the machine in a slot remembers of its subscription. -/
def subscription? (b : Board) (slot : Slot) : Option Subscription :=
  (b.device? slot).bind (·.subscription?)

/-! ## Actions that are allowed -/

/-- What a course of actions leads to if all of them are allowed on the boards that they meet, and
    so are those of the scripts that are played meanwhile. -/
inductive CourseOf (Allowed : Board → Action → Prop) : Board → Board → Prop where
  /-- No action is carried out. -/
  | stay (b : Board) : CourseOf Allowed b b
  /-- One more action is carried out. -/
  | act {b c : Board} {play : Play} (hplay : Responsive play) {action : Action}
      (hallowed : Allowed c action)
      (hplays : ∀ d key, c.pressing? action = some (d, key) → ∀ before slot script,
        d.Plays play key before slot script →
          CourseOf Allowed (d.atResponse play key before slot)
            (play slot script (d.atResponse play key before slot)))
      (h : CourseOf Allowed b c) : CourseOf Allowed b (c.perform play action).2
  /-- A note is made. -/
  | note {b c : Board} {event : Event} (hnote : event.IsNote) (h : CourseOf Allowed b c) :
      CourseOf Allowed b (c.tell event)

/-- The moments of the runs in which all actions are allowed on the boards that they meet. -/
inductive MomentOf (Allowed : Board → Action → Prop) : Board → Prop where
  /-- A run begins. -/
  | start (pruning : Pruning) : MomentOf Allowed (empty pruning)
  /-- Some actions later. -/
  | course {b c : Board} (h : MomentOf Allowed b) (hc : CourseOf Allowed b c) : MomentOf Allowed c
  /-- A device is held on to and busy, because somebody uses it. -/
  | borrow {b : Board} {slot : Slot} (h : MomentOf Allowed b)
      (hplugged : (b.plugged? slot).isSome = true) (hfree : b.isBusy slot = false) :
      MomentOf Allowed ((b.hold slot).setBusy slot true)
  /-- A listener begins to respond to the press of a key that was up, after the turns of others. -/
  | response {b : Board} {play : Play} {key : UInt8} {before : List Slot} {slot : Slot}
      {script : List Action} (h : MomentOf Allowed b) (hplay : Responsive play)
      (hplayed : ∀ earlier other played, earlier ++ [other] <+: before →
        b.Plays play key earlier other played →
          CourseOf Allowed (b.atResponse play key earlier other)
            (play other played (b.atResponse play key earlier other)))
      (hplays : b.Plays play key before slot script) :
      MomentOf Allowed (b.atResponse play key before slot)

variable {Allowed : Board → Action → Prop} {b c : Board} {slot : Slot}

theorem CourseOf.course (h : CourseOf Allowed b c) : Course b c := by
  induction h with
  | stay b => exact .stay b
  | act hplay _ _ _ _ ih => exact .act hplay _ ih
  | note hnote _ ih => exact .note hnote ih

theorem MomentOf.moment (h : MomentOf Allowed b) : b.Moment := by
  induction h with
  | start pruning => exact .start pruning
  | course _ hc ih => exact ih.course hc.course
  | borrow _ hplugged hfree ih => exact ih.borrow hplugged hfree
  | response _ hplay _ hplays ih =>
    obtain ⟨after, haudience⟩ := hplays.audience
    exact ih.response hplay hplays.isKey hplays.isUp haudience hplays.device hplays.free

/-- If everything is allowed, every course is one of allowed actions. -/
theorem Course.courseOf (hall : ∀ d action, Allowed d action) (h : Course b c) :
    CourseOf Allowed b c := by
  induction h with
  | stay b => exact .stay b
  | act hplay _ _ ihplay ih => exact .act hplay (hall _ _) (fun _ _ _ _ _ _ _ => ihplay _ _ _) ih
  | note hnote _ ih => exact .note hnote ih

theorem Moment.momentOf (hall : ∀ d action, Allowed d action) (h : b.Moment) :
    MomentOf Allowed b := by
  induction h with
  | start pruning => exact .start pruning
  | course _ hc ih => exact ih.course (hc.courseOf hall)
  | borrow _ hplugged hfree ih => exact ih.borrow hplugged hfree
  | response _ hplay hkey hup haudience hdevice hfree ih =>
    exact ih.response hplay (fun _ _ _ _ _ => (hplay _ _ _).courseOf hall)
      ⟨hkey, hup, ⟨_, haudience⟩, hdevice, hfree⟩

/-! ## Steps -/

/-- Nothing is registered, nobody dies, and no machine subscribes or ends its subscription. -/
structure Unmoved (b c : Board) : Prop where
  registry : c.registry = b.registry
  length : c.outlets.length = b.outlets.length
  subscription (slot : Slot) : c.subscription? slot = b.subscription? slot
  alive (slot : Slot) : c.isAlive slot = b.isAlive slot

theorem Unmoved.refl (b : Board) : Unmoved b b := ⟨rfl, rfl, fun _ => rfl, fun _ => rfl⟩

theorem Unmoved.trans {d : Board} (h : Unmoved b c) (h' : Unmoved c d) : Unmoved b d where
  registry := h'.registry.trans h.registry
  length := h'.length.trans h.length
  subscription slot := (h'.subscription slot).trans (h.subscription slot)
  alive slot := (h'.alive slot).trans (h.alive slot)

/-- A step in which registrations or subscriptions may change. -/
inductive Dealing (Allowed : Board → Action → Prop) : Board → Board → Prop where
  /-- Neither does. -/
  | unmoved {b c : Board} (h : Unmoved b c) : Dealing Allowed b c
  /-- A device is plugged in that has no ticket. -/
  | plug {b : Board} {device : Device}
      (h : ∀ ticket, device.subscription? ≠ some (.active ticket)) :
      Dealing Allowed b (b.plug device).2
  /-- A machine is attached. -/
  | attach {b : Board} {slot : Slot} {m : Machine} (h : b.machine? slot = some m)
      (hnever : m.subscription = .never) : Dealing Allowed b (b.attachMachine slot m)
  /-- A machine is detached. -/
  | detach {b : Board} {slot : Slot} {m : Machine} (h : b.device? slot = some (.machine m)) :
      Dealing Allowed b (b.detachMachine slot m)
  /-- A device that is alive is registered. -/
  | add {b : Board} {slot : Slot} (h : b.isAlive slot = true)
      (hallowed : Allowed b (.add slot)) : Dealing Allowed b (b.subscribe slot).2
  /-- A ticket is given back. -/
  | remove {b : Board} {ticket : Ticket} (hallowed : Allowed b (.remove ticket)) :
      Dealing Allowed b (b.cancel ticket)
  /-- A device is plugged out or let go of, and may die of it. -/
  | lessen {b : Board} {slot : Slot} {f : Outlet → Outlet} (h : ∀ o, (f o).device = o.device) :
      Dealing Allowed b ((b.modify slot f).settle slot)
  /-- A dispatch sets out, and the dead are taken off the list. -/
  | setOut (b : Board) (key : UInt8) : Dealing Allowed b (b.setOut key)

/-- Sequences of such steps. -/
def Dealings (Allowed : Board → Action → Prop) : Board → Board → Prop :=
  Relation.ReflTransGen (Dealing Allowed)

theorem Dealing.dealings (h : Dealing Allowed b c) : Dealings Allowed b c :=
  Relation.ReflTransGen.single h

theorem Unmoved.dealings (h : Unmoved b c) : Dealings Allowed b c :=
  Dealing.dealings (.unmoved h)

theorem Dealings.refl (b : Board) : Dealings Allowed b b := Relation.ReflTransGen.refl

theorem Dealings.trans {d : Board} (h : Dealings Allowed b c) (h' : Dealings Allowed c d) :
    Dealings Allowed b d :=
  Relation.ReflTransGen.trans h h'

/-- What every such step keeps lasts. -/
theorem Dealings.invariant {P : Board → Prop}
    (hP : ∀ {b c : Board}, Dealing Allowed b c → P b → P c) (h : Dealings Allowed b c) (hb : P b) :
    P c :=
  invariant_of_steps hP h hb

/-! ## What leaves registrations alone -/

theorem subscription?_of_outlets_eq (h : c.outlets = b.outlets) (slot : Slot) :
    c.subscription? slot = b.subscription? slot := by
  unfold subscription? device? outlet?
  rw [h]

theorem isAlive_of_outlets_eq (h : c.outlets = b.outlets) (slot : Slot) :
    c.isAlive slot = b.isAlive slot := by
  unfold isAlive outlet?
  rw [h]

theorem subscription?_of_device? {device : Device} (h : b.device? slot = some device) :
    b.subscription? slot = device.subscription? := by
  rw [subscription?, h, Option.bind_some]

theorem Unmoved.of_outlets_eq (hregistry : c.registry = b.registry)
    (houtlets : c.outlets = b.outlets) : Unmoved b c where
  registry := hregistry
  length := congrArg List.length houtlets
  subscription := subscription?_of_outlets_eq houtlets
  alive := isAlive_of_outlets_eq houtlets

theorem Unmoved.tell (b : Board) (event : Event) : Unmoved b (b.tell event) :=
  .of_outlets_eq rfl rfl

theorem Unmoved.report (b : Board) (entries : List Entry) : Unmoved b (b.report entries) :=
  .of_outlets_eq (b.registry_report entries) (b.outlets_report entries)

theorem isAlive_of_outlet? {o : Outlet} (ho : b.outlet? slot = some o) :
    b.isAlive slot = o.isAlive := by
  rw [isAlive, ho, Option.any_some]

theorem subscription?_modify_of_ne {other : Slot} (hne : other ≠ slot) (f : Outlet → Outlet) :
    (b.modify other f).subscription? slot = b.subscription? slot := by
  rw [subscription?, subscription?, device?, device?, outlet?_modify_of_ne hne]

theorem isAlive_modify_of_ne {other : Slot} (hne : other ≠ slot) (f : Outlet → Outlet) :
    (b.modify other f).isAlive slot = b.isAlive slot := by
  rw [isAlive, isAlive, outlet?_modify_of_ne hne]

theorem subscription?_modify {f : Outlet → Outlet} (h : ∀ o, b.outlet? slot = some o →
    (f o).device.subscription? = o.device.subscription?) (other : Slot) :
    (b.modify slot f).subscription? other = b.subscription? other := by
  by_cases same : slot = other
  · subst same
    cases ho : b.outlet? slot with
    | none =>
      rw [subscription?, subscription?, device?, device?, outlet?_modify, ho, Option.map_none]
    | some o =>
      rw [subscription?_of_device? (device?_of_outlet? (outlet?_modify_self ho f)), h o ho,
        subscription?_of_device? (device?_of_outlet? ho)]
  · exact subscription?_modify_of_ne same f

theorem isAlive_modify {f : Outlet → Outlet} (h : ∀ o, b.outlet? slot = some o →
    (f o).isAlive = o.isAlive) (other : Slot) :
    (b.modify slot f).isAlive other = b.isAlive other := by
  by_cases same : slot = other
  · subst same
    cases ho : b.outlet? slot with
    | none => rw [isAlive, isAlive, outlet?_modify, ho, Option.map_none]
    | some o =>
      rw [isAlive_of_outlet? (outlet?_modify_self ho f), h o ho, isAlive_of_outlet? ho]
  · exact isAlive_modify_of_ne same f

/-- An outlet may change if its device lives as before and has the same ticket. -/
theorem Unmoved.modify {f : Outlet → Outlet} (h : ∀ o, b.outlet? slot = some o →
    (f o).device.subscription? = o.device.subscription? ∧ (f o).isAlive = o.isAlive) :
    Unmoved b (b.modify slot f) where
  registry := rfl
  length := List.length_modify _ _ _
  subscription := subscription?_modify fun o ho => (h o ho).1
  alive := isAlive_modify fun o ho => (h o ho).2

theorem Unmoved.setBusy (b : Board) (slot : Slot) (busy : Bool) :
    Unmoved b (b.setBusy slot busy) :=
  .modify fun _ _ => ⟨rfl, rfl⟩

theorem Unmoved.hold (h : b.isAlive slot = true) : Unmoved b (b.hold slot) := by
  obtain ⟨o, ho, alive⟩ := isAlive_eq_true_iff.mp h
  refine .modify fun other hother => ⟨rfl, ?_⟩
  rw [ho, Option.some.injEq] at hother
  rw [← hother, alive]
  simp [Outlet.isAlive]

/-- A machine may be replaced by one with the same ticket. -/
theorem Unmoved.setMachine {m m' : Machine} (h : b.device? slot = some (.machine m))
    (hsubscription : m'.subscription = m.subscription) : Unmoved b (b.setMachine slot m') := by
  refine .modify fun o ho => ⟨?_, rfl⟩
  rw [device?_of_outlet? ho, Option.some.injEq] at h
  rw [h]
  exact congrArg some hsubscription

theorem Unmoved.operate (b : Board) (slot : Slot) (op : Machine.Op) :
    Unmoved b (b.operate slot op).2 := by
  refine related_withMachine .refl fun m hm => ?_
  have same := m.subscription_operate b.held op
  exact (Unmoved.setMachine (device?_of_machine? hm) same).trans (.report _ _)

theorem Unmoved.heardBy (b : Board) (number : ℕ) (key : UInt8) (slot : Slot) :
    Unmoved b (b.heardBy number key slot) :=
  (Unmoved.tell b _).trans (.setBusy _ slot true)

theorem Unmoved.release (b : Board) (key : UInt8) : Unmoved b (b.release key) := by
  unfold Board.release
  simp only
  split
  · exact .of_outlets_eq rfl rfl
  · exact (Unmoved.tell b _).trans (.report _ _)

/-! ## What the steps do -/

@[simp] theorem registry_attachMachine (b : Board) (slot : Slot) (m : Machine) :
    (b.attachMachine slot m).registry = (b.registry.register slot).2.1 :=
  b.registry_subscribe slot

theorem detachMachine_of_active {m : Machine} {ticket : Ticket}
    (h : m.subscription = .active ticket) : b.detachMachine slot m =
      (b.setMachine slot { m with subscription := .ended }).cancel ticket := by
  unfold detachMachine
  rw [h]

theorem detachMachine_of_not_active {m : Machine} (h : ∀ ticket, m.subscription ≠ .active ticket) :
    b.detachMachine slot m = b := by
  unfold detachMachine
  split
  · next ticket active => exact absurd active (h ticket)
  · rfl
  · rfl

theorem subscription?_setMachine {m : Machine} (h : b.device? slot = some (.machine m))
    (m' : Machine) : (b.setMachine slot m').subscription? slot = some m'.subscription :=
  subscription?_of_device? (device?_setMachine h m')

/-- Apart from the registry and from what is told, two boards differ at most in what the machine in
    one slot is like. -/
structure Apart (slot : Slot) (b c : Board) : Prop where
  length : c.outlets.length = b.outlets.length
  subscription {other : Slot} (h : slot ≠ other) : c.subscription? other = b.subscription? other
  alive (other : Slot) : c.isAlive other = b.isAlive other

theorem Apart.trans {d : Board} (h : Apart slot b c) (h' : Apart slot c d) : Apart slot b d where
  length := h'.length.trans h.length
  subscription hne := (h'.subscription hne).trans (h.subscription hne)
  alive other := (h'.alive other).trans (h.alive other)

theorem Apart.of_outlets_eq (h : c.outlets = b.outlets) : Apart slot b c :=
  ⟨congrArg List.length h, fun {other} _ => subscription?_of_outlets_eq h other,
    isAlive_of_outlets_eq h⟩

theorem Apart.setMachine (b : Board) (slot : Slot) (m : Machine) :
    Apart slot b (b.setMachine slot m) where
  length := List.length_modify _ _ _
  subscription hne := subscription?_modify_of_ne hne _
  alive := isAlive_modify fun _ _ => rfl

theorem Apart.attachMachine (b : Board) (slot : Slot) (m : Machine) :
    Apart slot b (b.attachMachine slot m) :=
  (Apart.of_outlets_eq (outlets_subscribe b slot)).trans (.setMachine _ slot _)

theorem Apart.detachMachine (b : Board) (slot : Slot) (m : Machine) :
    Apart slot b (b.detachMachine slot m) := by
  unfold Board.detachMachine
  split
  · exact (Apart.setMachine b slot _).trans (.of_outlets_eq (outlets_cancel _ _))
  · exact .of_outlets_eq rfl
  · exact .of_outlets_eq rfl

/-- A machine that is detached has no ticket. -/
theorem subscription?_detachMachine_ne {m : Machine} (h : b.device? slot = some (.machine m))
    (ticket : Ticket) : (b.detachMachine slot m).subscription? slot ≠ some (.active ticket) := by
  by_cases attached : ∃ other, m.subscription = .active other
  · obtain ⟨other, hother⟩ := attached
    rw [detachMachine_of_active hother, subscription?_of_outlets_eq (outlets_cancel _ _),
      subscription?_setMachine h]
    nofun
  · have never := not_exists.mp attached
    rw [detachMachine_of_not_active never, subscription?_of_device? h]
    exact fun same => never ticket (Option.some.inj same)

theorem Apart.settle (b : Board) (slot : Slot) : Apart slot b (b.settle slot) := by
  rw [settle_eq]
  split
  · exact .of_outlets_eq rfl
  · have buried : Apart slot b (b.bury slot) := .of_outlets_eq (outlets_bury b slot)
    split
    · exact buried.trans (.detachMachine _ slot _)
    · exact buried
    · exact buried

/-! ## Presses -/

theorem Dealings.letGo (b : Board) (slot : Slot) : Dealings Allowed b (b.letGo slot) := by
  apply Dealing.dealings
  exact .lessen fun _ => rfl

theorem Dealings.unplug (b : Board) (slot : Slot) : Dealings Allowed b (b.unplug slot) := by
  apply Dealing.dealings
  exact .lessen fun _ => rfl

/-- A device is called and answers. -/
theorem Dealings.deliver {play : Play} {number : ℕ} {key : UInt8} {device : Device}
    (h : Dealings Allowed (b.heardBy number key slot)
      ((b.heardBy number key slot).respond play key slot device)) :
    Dealings Allowed b (b.deliver play number key slot device) := by
  have left {d : Board} : Unmoved d ((d.setBusy slot false).tell (.done number slot)) :=
    (Unmoved.setBusy d slot false).trans (.tell _ _)
  rw [deliver_eq]
  exact ((Unmoved.heardBy b number key slot).dealings.trans h).trans left.dealings

theorem Unmoved.borrow (hplugged : (b.plugged? slot).isSome = true) :
    Unmoved b ((b.hold slot).setBusy slot true) :=
  (Unmoved.hold (isAlive_of_plugged? hplugged)).trans (.setBusy _ slot true)

/-! ## Actions -/

/-- An action that is allowed and neither presses nor releases a key. -/
theorem Dealings.quiet (play : Play) {action : Action} (h : action.IsQuiet)
    (hallowed : Allowed b action) : Dealings Allowed b (b.perform play action).2 := by
  cases action with
  | plugScript script => exact Dealing.dealings (.plug fun _ => nofun)
  | plugMachine source subscribed =>
    have plugged : Dealings Allowed b (b.plug (.machine (.new source))).2 :=
      Dealing.dealings (.plug fun _ => nofun)
    simp only [Board.perform]
    split
    · have there : (b.plug (.machine (.new source))).2.machine? b.outlets.length =
          some (.new source) := by
        simp [machine?, outlet?, plug, Outlet.machine?]
      exact plugged.trans (Dealing.dealings (.attach there rfl))
    · exact plugged
  | attach slot =>
    simp only [Board.perform, Board.attach]
    split
    · next m hm =>
      split
      · next hnever => exact Dealing.dealings (.attach hm hnever)
      · exact .refl b
    · exact .refl b
  | detach slot =>
    refine related_withMachine .refl fun m hm => ?_
    exact Dealing.dealings (.detach (device?_of_machine? hm))
  | operate slot op => exact (Unmoved.operate b slot op).dealings
  | add slot =>
    simp only [Board.perform]
    split
    · next hplugged => exact Dealing.dealings (.add (isAlive_of_plugged? hplugged) hallowed)
    · exact .refl b
  | remove ticket => exact Dealing.dealings (.remove hallowed)
  | unplug slot => exact .unplug b slot
  | press key => exact h.elim
  | pressBusy slot key => exact h.elim
  | release key => exact h.elim
  | askKey key => exact .refl b
  | askCount => exact .refl b

/-- All parts of actions are made of dealings. -/
theorem Dealings.composed : Composed Allowed (Dealings Allowed) where
  refl := .refl
  trans := .trans
  quiet play _ _ := .quiet play
  tell b event _ := (Unmoved.tell b event).dealings
  release b key := (Unmoved.release b key).dealings
  setOut b key := (Dealing.setOut b key).dealings
  hold h := (Unmoved.hold h).dealings
  letGo := .letGo
  hear play {b slot m} number key h _ := by
    have there : (b.heardBy number key slot).device? slot = some (.machine m) :=
      (device?_setBusy _ _ _ _).trans h
    have hears : Unmoved (b.heardBy number key slot)
        ((b.heardBy number key slot).setMachine slot (m.hear key)) :=
      .setMachine there rfl
    exact .deliver hears.dealings
  borrow {b c slot} _ h :=
    ((Unmoved.setBusy b slot true).dealings.trans h).trans (Unmoved.setBusy c slot false).dealings

/-- A course of allowed actions is made of dealings. -/
theorem CourseOf.dealings (h : CourseOf Allowed b c) : Dealings Allowed b c := by
  induction h with
  | stay b => exact .refl b
  | act _ hallowed _ _ ihplays ih =>
    exact ih.trans (Dealings.composed.perform hallowed fun d key hpress before slot script played =>
      .deliver (ihplays d key hpress before slot script played))
  | note _ _ ih => exact ih.trans (Unmoved.tell _ _).dealings

/-- So is all that leads to a moment. -/
theorem MomentOf.dealings (h : MomentOf Allowed b) :
    ∃ pruning, Dealings Allowed (empty pruning) b := by
  induction h with
  | start pruning => exact ⟨pruning, .refl _⟩
  | course _ hc ih =>
    obtain ⟨pruning, before⟩ := ih
    exact ⟨pruning, before.trans hc.dealings⟩
  | borrow _ hplugged _ ih =>
    obtain ⟨pruning, before⟩ := ih
    exact ⟨pruning, before.trans (Unmoved.borrow hplugged).dealings⟩
  | response _ _ hplayed hplays ih =>
    obtain ⟨pruning, before⟩ := ih
    obtain ⟨after, haudience⟩ := hplays.audience
    have turns := Dealings.composed.atTurn (fun earlier other script hturn hother =>
      .deliver (hplayed earlier other script hturn hother).dealings) hplays.isKey hplays.isUp
      (haudience ▸ List.prefix_append _ _)
    exact ⟨pruning, (before.trans turns).trans (Unmoved.heardBy _ _ _ _).dealings⟩

/-- What every step keeps, and new boards have, holds at every moment. -/
theorem MomentOf.invariant {P : Board → Prop} (hstart : ∀ pruning, P (empty pruning))
    (hP : ∀ {b c : Board}, Dealing Allowed b c → P b → P c) (h : MomentOf Allowed b) : P b := by
  obtain ⟨pruning, dealings⟩ := h.dealings
  exact dealings.invariant hP (hstart pruning)

/-! ## Scripts -/

section Scripts

variable {Admitted : Action → Prop} {P : Device → Prop} {depth : ℕ}

/-- A course goes on with an action that is allowed if every script on the board is a course. -/
theorem CourseOf.act_of_every (hP : Device.Lasting Admitted P)
    (hplays : ∀ slot script (d : Board), d.Every P → P (.script script) →
      CourseOf Allowed d (hearing depth slot script d))
    (h : CourseOf Allowed b c) (hc : c.Every P) {action : Action} (hallowed : Allowed c action) :
    CourseOf Allowed b (c.act depth action).2 := by
  refine .act (responsive_hearing depth) hallowed ?_ h
  intro d key hpress before slot script played
  obtain ⟨every, hscript⟩ := (hc.pressing hpress).response hP played
  exact hplays slot script _ every hscript

/-- Scripts that consist of allowed actions are courses of such, however deeply they nest. -/
theorem CourseOf.hearing (hP : Device.Lasting Admitted P)
    (hallowed : ∀ {script : List Action}, P (.script script) → ∀ action ∈ script, ∀ d : Board,
      Allowed d action)
    (depth : ℕ) (slot : Slot) (script : List Action) (d : Board) (hd : d.Every P)
    (hscript : P (.script script)) : CourseOf Allowed d (hearing depth slot script d) := by
  -- A script that plays while another one does plays one level deeper.
  induction depth generalizing slot script d with
  | zero => exact .note trivial (.stay d)
  | succ depth ih =>
    have playing (rest : List Action) {c : Board} (hrest : ∀ action ∈ rest, action ∈ script)
        (hc : c.Every P) (h : CourseOf Allowed d c) :
        CourseOf Allowed d (rest.foldl (performNoted (Board.hearing depth) slot) c) := by
      induction rest generalizing c with
      | nil => exact h
      | cons action rest ih' =>
        obtain ⟨hfirst, hlater⟩ := List.forall_mem_cons.mp hrest
        have acted := CourseOf.act_of_every hP ih h hc (hallowed hscript action hfirst c)
        exact ih' hlater (hc.act hP depth (hP.plays hscript action hfirst)) (.note trivial acted)
    exact playing script (fun _ => id) hd (.stay d)

end Scripts

end Board

end Chip8
