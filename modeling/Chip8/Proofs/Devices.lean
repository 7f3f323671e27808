import Chip8.Board.Run
import Chip8.Proofs.Reachable

/-!
# Devices on a board

A property of devices that hearing, operating and subscribing keep, and that new devices have,
holds of every device on a board at every moment: whatever is pressed, plugged and unplugged, and
however deeply scripts press keys while others play.

* `Action.Throughout`, `Device.Plays`: a property of actions, asked of scripts however deeply they
  are nested.
* `Device.Lasting`: such a property of devices, for the actions that are allowed;
  `Device.lasting_plays`, that what scripts are made of is one.
* `Board.Every`: a property of all devices on a board, and `Every.act`, that it stays one.
* `Board.reachable_of_run`: the machines on a board are machines that come about.
-/

namespace Chip8

/-! ## What scripts are made of -/

mutual

/-- Whether an action has a property, and so have all that are in it. -/
def Action.Throughout (p : Action → Prop) : Action → Prop
  | .plugScript script => p (.plugScript script) ∧ ThroughoutAll p script
  | action => p action

/-- Whether each of several actions has a property throughout. -/
def ThroughoutAll (p : Action → Prop) : List Action → Prop
  | [] => True
  | action :: rest => action.Throughout p ∧ ThroughoutAll p rest

end

/-- Whether the script that an action plugs in, if any, has a property throughout. -/
def Action.Plugs (p : Action → Prop) : Action → Prop
  | .plugScript script => ThroughoutAll p script
  | .plugMachine _ _ | .attach _ | .detach _ | .operate _ _ | .add _ | .remove _ | .unplug _
  | .press _ | .pressBusy _ _ | .release _ | .askKey _ | .askCount => True

/-- Whether the script that a device plays, if any, has a property throughout. -/
def Device.Plays (p : Action → Prop) : Device → Prop
  | .script actions => ThroughoutAll p actions
  | .machine _ => True

section Throughout

variable {p : Action → Prop} {action : Action} {actions : List Action}

theorem Action.Throughout.self (h : action.Throughout p) : p action := by
  cases action with
  | plugScript script => exact h.1
  | _ => exact h

theorem Action.Throughout.plugs (h : action.Throughout p) : action.Plugs p := by
  cases action with
  | plugScript script => exact h.2
  | _ => trivial

theorem ThroughoutAll.forall_mem (h : ThroughoutAll p actions) :
    ∀ action ∈ actions, action.Throughout p := by
  induction actions with
  | nil => exact fun action hmem => absurd hmem List.not_mem_nil
  | cons first rest ih =>
    obtain ⟨hfirst, hrest⟩ := h
    exact List.forall_mem_cons.mpr ⟨hfirst, ih hrest⟩

end Throughout

/-! ## Properties that last -/

/-- A property of devices that lasts as long as only some actions are carried out. -/
structure Device.Lasting (Allowed : Action → Prop) (P : Device → Prop) : Prop where
  hear {m : Machine} (key : UInt8) : P (.machine m) → P (.machine (m.hear key))
  operate {m : Machine} {slot : Slot} {op : Machine.Op} (held : HeldKeys) :
    Allowed (.operate slot op) → P (.machine m) → P (.machine (m.operate held op).machine)
  attach {m : Machine} (ticket : Ticket) :
    P (.machine m) → P (.machine { m with subscription := .active ticket })
  detach {m : Machine} : P (.machine m) → P (.machine { m with subscription := .ended })
  new {source : ByteSource} {subscribed : Bool} :
    Allowed (.plugMachine source subscribed) → P (.machine (.new source))
  script {actions : List Action} : Allowed (.plugScript actions) → P (.script actions)
  /-- Scripts play allowed actions only. -/
  plays {actions : List Action} : P (.script actions) → ∀ action ∈ actions, Allowed action

/-- A property of all actions of the scripts on a board lasts, if scripts without it are not plugged
    in. -/
theorem Device.lasting_plays (p : Action → Prop) :
    Device.Lasting (Action.Plugs p) (Device.Plays p) where
  hear _ _ := trivial
  operate _ _ _ := trivial
  attach _ _ := trivial
  detach _ := trivial
  new _ := trivial
  script h := h
  plays h action hmem := (h.forall_mem action hmem).plugs

namespace Board

/-- What holds of every device on a board, unplugged ones included. -/
def Every (P : Device → Prop) (b : Board) : Prop := ∀ o ∈ b.outlets, P o.device

variable {Allowed : Action → Prop} {P : Device → Prop} {b : Board} {slot : Slot}

/-! ## Looking devices up -/

theorem Every.device? (h : b.Every P) {device : Device} (hd : b.device? slot = some device) :
    P device := by
  obtain ⟨o, ho, rfl⟩ := Option.map_eq_some_iff.mp hd
  exact h o (List.mem_of_getElem? ho)

theorem device?_of_machine? {m : Machine} (hm : b.machine? slot = some m) :
    b.device? slot = some (.machine m) := by
  obtain ⟨o, ho, hdevice⟩ := Option.bind_eq_some_iff.mp hm
  have machine_eq : o.device = .machine m := by
    unfold Outlet.machine? at hdevice
    split at hdevice
    · next n hn => split at hdevice <;> cases hdevice; exact hn
    · cases hdevice
  exact Option.map_eq_some_iff.mpr ⟨o, ho, machine_eq⟩

/-! ## What leaves devices alone -/

theorem exists_report (b : Board) (entries : List Entry) :
    ∃ history, b.report entries = { b with history } := by
  unfold report
  induction entries generalizing b with
  | nil => exact ⟨b.history, rfl⟩
  | cons entry rest ih =>
    obtain ⟨history, h⟩ := ih (b.tell (.reported entry))
    exact ⟨history, h⟩

@[simp] theorem outlets_report (b : Board) (entries : List Entry) :
    (b.report entries).outlets = b.outlets := by
  obtain ⟨history, h⟩ := b.exists_report entries
  rw [h]

@[simp] theorem registry_report (b : Board) (entries : List Entry) :
    (b.report entries).registry = b.registry := by
  obtain ⟨history, h⟩ := b.exists_report entries
  rw [h]

@[simp] theorem outlets_subscribe (b : Board) (slot : Slot) :
    (b.subscribe slot).2.outlets = b.outlets :=
  outlets_report _ _

@[simp] theorem outlets_cancel (b : Board) (ticket : Ticket) :
    (b.cancel ticket).outlets = b.outlets :=
  outlets_report _ _

@[simp] theorem registry_subscribe (b : Board) (slot : Slot) :
    (b.subscribe slot).2.registry = (b.registry.register slot).2.1 :=
  registry_report _ _

@[simp] theorem registry_cancel (b : Board) (ticket : Ticket) :
    (b.cancel ticket).registry = (b.registry.unregister ticket).1 :=
  registry_report _ _

theorem Every.of_outlets_eq {c : Board} (h : b.Every P) (heq : c.outlets = b.outlets) :
    c.Every P := by
  unfold Every
  rw [heq]
  exact h

/-! ## Changing an outlet -/

theorem Every.modify (h : b.Every P) {f : Outlet → Outlet} (hf : ∀ o, P o.device → P (f o).device) :
    (b.modify slot f).Every P := by
  intro o ho
  obtain ⟨k, hk⟩ := List.getElem?_of_mem ho
  change (b.outlets.modify slot f)[k]? = some o at hk
  rw [List.getElem?_modify] at hk
  obtain ⟨before, hbefore, rfl⟩ := Option.map_eq_some_iff.mp hk
  have hP := h before (List.mem_of_getElem? hbefore)
  split
  · exact hf before hP
  · exact hP

theorem Every.setMachine (h : b.Every P) {m : Machine} (hm : P (.machine m)) :
    (b.setMachine slot m).Every P :=
  h.modify fun _ _ => hm

theorem Every.setBusy (h : b.Every P) (busy : Bool) : (b.setBusy slot busy).Every P :=
  h.modify fun _ ho => ho

theorem Every.hold (h : b.Every P) : (b.hold slot).Every P := h.modify fun _ ho => ho

theorem Every.foldl_hold (h : b.Every P) (slots : List Slot) :
    (slots.foldl Board.hold b).Every P :=
  List.foldlRecOn slots _ h fun _ every _ _ => every.hold

theorem Every.plug (h : b.Every P) {device : Device} (hd : P device) :
    (b.plug device).2.Every P := by
  intro o ho
  rcases List.mem_append.mp ho with hold | hnew
  · exact h o hold
  · rw [List.mem_singleton.mp hnew]
    exact hd

section Lasting

variable (hP : Device.Lasting Allowed P)

include hP

theorem Every.attachMachine (h : b.Every P) {m : Machine} (hm : P (.machine m)) :
    (b.attachMachine slot m).Every P :=
  (h.of_outlets_eq (outlets_subscribe b slot)).setMachine (hP.attach _ hm)

theorem Every.detachMachine (h : b.Every P) {m : Machine} (hm : P (.machine m)) :
    (b.detachMachine slot m).Every P := by
  unfold Board.detachMachine
  split
  · exact (h.setMachine (hP.detach hm)).of_outlets_eq (outlets_cancel _ _)
  · exact h
  · exact h

theorem Every.settle (h : b.Every P) (slot : Slot) : (b.settle slot).Every P := by
  unfold Board.settle
  split
  · exact h
  · simp only
    split
    · next m hm =>
      refine Every.detachMachine hP ?pruned (Every.device? ?pruned hm)
      split <;> exact h
    · split <;> exact h
    · split <;> exact h

theorem Every.letGo (h : b.Every P) (slot : Slot) : (b.letGo slot).Every P := by
  unfold Board.letGo
  refine Every.settle hP (h.modify ?_) slot
  exact fun _ ho => ho

theorem Every.unplug (h : b.Every P) (slot : Slot) : (b.unplug slot).Every P := by
  unfold Board.unplug
  refine Every.settle hP (h.modify ?_) slot
  exact fun _ ho => ho

/-! ## Presses -/

variable {play : Play}
  (hplay : ∀ slot script b, P (.script script) → b.Every P → (play slot script b).Every P)

include hplay

theorem Every.deliver (h : b.Every P) (number : ℕ) (key : UInt8) (slot : Slot) {device : Device}
    (hd : P device) : (b.deliver play number key slot device).Every P := by
  have heard : ((b.tell (.heard number slot key)).setBusy slot true).Every P :=
    Every.setBusy (b := b.tell (.heard number slot key)) h true
  cases device with
  | machine m => exact (heard.setMachine (hP.hear key hd)).setBusy false
  | script script => exact (hplay slot script _ hd heard).setBusy false

theorem Every.turn (h : b.Every P) (number : ℕ) (key : UInt8) (slot : Slot) :
    (Board.turn play number key b slot).Every P := by
  unfold Board.turn
  apply Every.letGo hP
  cases ho : b.outlet? slot with
  | none => exact h
  | some o =>
    have hd : P o.device := h o (List.mem_of_getElem? ho)
    simp only
    split
    · exact h.of_outlets_eq (outlets_report _ _)
    · exact h.deliver hP hplay number key slot hd

theorem Every.foldl_turn (h : b.Every P) (number : ℕ) (key : UInt8) (slots : List Slot) :
    (slots.foldl (Board.turn play number key) b).Every P :=
  List.foldlRecOn slots _ h fun _ every slot _ => every.turn hP hplay number key slot

theorem Every.dispatch (h : b.Every P) (key : UInt8) : (b.dispatch play key).Every P := by
  refine Every.foldl_turn hP hplay (Every.foldl_hold ?_ _) _ key _
  exact h

theorem Every.press (h : b.Every P) (key : UInt8) : (b.press play key).Every P := by
  unfold Board.press
  simp only
  split
  · split
    · exact h
    · have pressed : Board.Every P { b.tell (.pressed key) with held := b.held.press key } := h
      exact pressed.dispatch hP hplay key
  · exact h.of_outlets_eq (outlets_report _ _)

theorem Every.pressBusy (h : b.Every P) (slot : Slot) (key : UInt8) :
    (b.pressBusy play slot key).Every P := by
  unfold Board.pressBusy
  exact (((h.hold.setBusy true).press hP hplay key).setBusy false).letGo hP slot

/-! ## Actions -/

theorem Every.perform (h : b.Every P) {action : Action} (ha : Allowed action) :
    (b.perform play action).2.Every P := by
  cases action with
  | plugScript script => exact h.plug (hP.script ha)
  | plugMachine source subscribed =>
    have plugged := h.plug (hP.new ha)
    simp only [Board.perform]
    split
    · exact plugged.attachMachine hP (hP.new ha)
    · exact plugged
  | attach slot =>
    simp only [Board.perform, Board.attach]
    split
    · next m hm =>
      split
      · exact h.attachMachine hP (h.device? (device?_of_machine? hm))
      · exact h
    · exact h
  | detach slot =>
    simp only [Board.perform, Board.withMachine]
    split
    · next m hm =>
      split
      · exact h
      · exact h.detachMachine hP (h.device? (device?_of_machine? hm))
    · exact h
  | operate slot op =>
    simp only [Board.perform, Board.operate, Board.withMachine]
    split
    · next m hm =>
      split
      · exact h
      · have hm' := hP.operate b.held ha (h.device? (device?_of_machine? hm))
        exact (h.setMachine hm').of_outlets_eq (outlets_report _ _)
    · exact h
  | add slot =>
    simp only [Board.perform]
    split
    · exact h.of_outlets_eq (outlets_subscribe b slot)
    · exact h
  | remove ticket => exact h.of_outlets_eq (outlets_cancel b ticket)
  | unplug slot => exact h.unplug hP slot
  | press key => exact h.press hP hplay key
  | pressBusy slot key =>
    simp only [Board.perform]
    split
    · split
      · exact h
      · exact h.pressBusy hP hplay slot key
    · exact h
  | release key =>
    simp only [Board.perform, Board.release]
    split
    · exact h
    · exact h.of_outlets_eq (outlets_report _ _)
  | askKey key => exact h
  | askCount => exact h

end Lasting

theorem Every.hearing (hP : Device.Lasting Allowed P) (depth : ℕ) (slot : Slot)
    (script : List Action) (b : Board) (hs : P (.script script)) (h : b.Every P) :
    (Board.hearing depth slot script b).Every P := by
  induction depth generalizing slot script b with
  | zero => exact h
  | succ depth ih =>
    have playing (rest : List Action) {c : Board} (hrest : ∀ action ∈ rest, Allowed action)
        (hc : c.Every P) :
        (rest.foldl (performNoted (Board.hearing depth) slot) c).Every P := by
      induction rest generalizing c with
      | nil => exact hc
      | cons action rest ih' =>
        obtain ⟨ha, hlater⟩ := List.forall_mem_cons.mp hrest
        exact ih' hlater (hc.perform hP ih ha)
    exact playing script (hP.plays hs) h

/-- What lasts holds of every device behind an allowed action. -/
theorem Every.act (h : b.Every P) (hP : Device.Lasting Allowed P) (depth : ℕ) {action : Action}
    (ha : Allowed action) : (b.act depth action).2.Every P :=
  h.perform hP (Every.hearing hP depth) ha

/-- What lasts holds of every device at every moment of a run of allowed actions. -/
theorem Every.moments (h : b.Every P) (hP : Device.Lasting Allowed P) (depth : ℕ)
    {actions : List Action} (ha : ∀ action ∈ actions, Allowed action) :
    ∀ moment ∈ b.moments depth actions, moment.2.Every P := by
  induction actions generalizing b with
  | nil =>
    intro moment hmoment
    cases hmoment
  | cons action rest ih =>
    obtain ⟨hfirst, hrest⟩ := List.forall_mem_cons.mp ha
    have first := h.act hP depth hfirst
    intro moment hmoment
    rcases List.mem_cons.mp hmoment with rfl | hlater
    · exact first
    · exact ih first hrest moment hlater

end Board

/-! ## Machines on a board -/

/-- Whether the source of the machine that an action plugs in, if any, comes about. -/
def Action.Obtainable : Action → Prop
  | .plugMachine source _ => source.Obtainable
  | .plugScript _ | .attach _ | .detach _ | .operate _ _ | .add _ | .remove _ | .unplug _
  | .press _ | .pressBusy _ _ | .release _ | .askKey _ | .askCount => True

/-- The devices that come about. -/
def Device.ComesAbout : Device → Prop
  | .script actions => ThroughoutAll Action.Obtainable actions
  | .machine m => m.Reachable

theorem Device.lasting_comesAbout :
    Device.Lasting (Action.Throughout Action.Obtainable) Device.ComesAbout where
  hear key h := h.operate .allUp (.hear key)
  operate held _ h := h.operate held _
  attach ticket h := h.attach ticket
  detach h := h.detach
  new h := Machine.Reachable.new h
  script h := h.plugs
  plays h := h.forall_mem

/-- **Main theorem.** Every machine at any moment of any run on a new board comes about from its
    source by its own operations. -/
theorem Board.reachable_of_run (pruning : Pruning) {actions : List Action}
    (h : ThroughoutAll Action.Obtainable actions) {moment : Answer × Board}
    (hm : moment ∈ run pruning actions) {slot : Slot} {m : Machine}
    (hd : moment.2.device? slot = some (.machine m)) : m.Reachable := by
  have start : (empty pruning).Every Device.ComesAbout := by
    intro o ho
    cases ho
  have every := start.moments Device.lasting_comesAbout (nesting actions) h.forall_mem moment hm
  exact every.device? hd

end Chip8
