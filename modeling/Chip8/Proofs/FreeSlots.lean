import Chip8.Proofs.Calls
import Chip8.Proofs.Tickets

/-!
# Free slots

A script is registered only if some action names its slot, be it an action that is carried out or
one of a script. So the scripts that a dispatch could call are in the slots that are named, and they
are not busy. Whenever one of them is called there is one fewer, and when it is through there are as
many as before.

* `Board.Adds`: actions that name only some slots to be registered.
* `Board.Callable`, `Board.Enrolled`: only machines and the listeners in these slots are registered,
  and scripts name no others.
* `Board.room`: how many of these slots are free.
* `Enrolled.act`, `Enrolled.call`: an action leaves as much room as it finds, and a script that is
  called has less.
* `Board.Heedful`: only those listeners are called, and no script is cut short.
-/

namespace Chip8

/-- The slots that the script of a device, if it is one, names to be registered. -/
def Device.added : Device → List Slot
  | .script actions => addedByAll actions
  | .machine _ => []

variable {slots : List Slot}

theorem addedByAll_cons_subset_iff {action : Action} {rest : List Action} :
    addedByAll (action :: rest) ⊆ slots ↔ action.added ⊆ slots ∧ addedByAll rest ⊆ slots := by
  rw [addedByAll, List.append_subset]

theorem addedByAll_subset_iff {actions : List Action} :
    addedByAll actions ⊆ slots ↔ ∀ action ∈ actions, action.added ⊆ slots := by
  induction actions with
  | nil => simp [addedByAll]
  | cons action rest ih => rw [addedByAll_cons_subset_iff, ih, List.forall_mem_cons]

theorem Device.lasting_added (slots : List Slot) :
    Device.Lasting (fun action => action.added ⊆ slots) (fun device => device.added ⊆ slots) where
  hear _ _ := List.nil_subset _
  operate _ _ _ := List.nil_subset _
  attach _ _ := List.nil_subset _
  detach _ := List.nil_subset _
  new _ := List.nil_subset _
  script h := h
  plays h := addedByAll_subset_iff.mp h

namespace Board

/-- Whether an action names only some slots to be registered. -/
def Adds (slots : List Slot) (_ : Board) (action : Action) : Prop := action.added ⊆ slots

/-- Whether a slot is one of some, or its device a machine. -/
def Callable (slots : List Slot) (b : Board) (slot : Slot) : Prop :=
  slot ∈ slots ∨ (b.subscription? slot).isSome = true

/-- Whether scripts name only some slots to be registered, and only those and machines are. -/
structure Enrolled (slots : List Slot) (b : Board) : Prop where
  scripts : b.Every fun device => device.added ⊆ slots
  registered {entry : Registration} (h : entry ∈ b.registry.entries) : b.Callable slots entry.slot

/-- How many of some slots have no device that is busy. -/
def room (slots : List Slot) (b : Board) : ℕ :=
  (slots.eraseDups.filter fun slot => !b.isBusy slot).length

variable {b c d : Board} {slot : Slot} {entry : Registration} {Allowed : Board → Action → Prop}

/-! ## Machines -/

theorem subscription?_eq_none_of_script {script : List Action}
    (h : b.device? slot = some (.script script)) : b.subscription? slot = none :=
  subscription?_of_device? h

/-- What happens to a slot leaves a machine there if there is one. -/
theorem Apart.isSome_subscription? (h : Apart slot b c)
    (hself : (b.subscription? slot).isSome = true → (c.subscription? slot).isSome = true)
    {other : Slot} (hother : (b.subscription? other).isSome = true) :
    (c.subscription? other).isSome = true := by
  by_cases same : slot = other
  · subst same
    exact hself hother
  · rwa [h.subscription same]

theorem isSome_subscription?_iff :
    (b.subscription? slot).isSome = true ↔ ∃ m, b.device? slot = some (.machine m) := by
  unfold subscription?
  cases b.device? slot with
  | none => simp
  | some device =>
    cases device with
    | script script => simp [Device.subscription?]
    | machine m => simp [Device.subscription?]

theorem isSome_subscription?_settle (h : (b.subscription? slot).isSome = true) :
    ((b.settle slot).subscription? slot).isSome = true := by
  obtain ⟨m, hm⟩ := isSome_subscription?_iff.mp h
  obtain ⟨m', hm', -⟩ := machine_settle hm
  exact isSome_subscription?_iff.mpr ⟨m', hm'⟩

/-- A slot with a machine always has one. -/
theorem Dealing.isSome_subscription? (h : Dealing Allowed b c)
    (hslot : (b.subscription? slot).isSome = true) : (c.subscription? slot).isSome = true := by
  cases h with
  | unmoved h => rwa [h.subscription]
  | @plug device _ =>
    obtain ⟨m, hm⟩ := isSome_subscription?_iff.mp hslot
    obtain ⟨o, ho, -⟩ := Option.map_eq_some_iff.mp hm
    have there := outlet?_plug_of_some ho device
    rwa [subscription?, device?, there, ← ho]
  | @attach other m hm _ =>
    refine (Apart.attachMachine b other m).isSome_subscription? (fun _ => ?_) hslot
    have there : (b.subscribe other).2.device? other = some (.machine m) :=
      (device?_report _ _ _).trans (device?_of_machine? hm)
    exact isSome_subscription?_iff.mpr ⟨_, device?_setMachine there _⟩
  | @detach other m hm =>
    refine (Apart.detachMachine b other m).isSome_subscription? (fun _ => ?_) hslot
    obtain ⟨m', hm', -⟩ := machine_detachMachine hm
    exact isSome_subscription?_iff.mpr ⟨m', hm'⟩
  | @add other _ _ => rwa [subscription?_of_outlets_eq (outlets_subscribe b other)]
  | @remove ticket _ => rwa [subscription?_of_outlets_eq (outlets_cancel b ticket)]
  | @lessen other f hdevice =>
    have same : ((b.modify other f).subscription? slot).isSome = true := by
      rwa [subscription?_modify fun o _ => by rw [hdevice]]
    exact (Apart.settle _ other).isSome_subscription? isSome_subscription?_settle same
  | setOut key => exact hslot

theorem Dealings.isSome_subscription? (h : Dealings Allowed b c)
    (hslot : (b.subscription? slot).isSome = true) : (c.subscription? slot).isSome = true :=
  h.invariant (P := fun d => (d.subscription? slot).isSome = true)
    (fun dealing => dealing.isSome_subscription?) hslot

theorem Callable.dealings (hb : b.Callable slots slot) (h : Dealings Allowed b c) :
    c.Callable slots slot :=
  hb.imp_right h.isSome_subscription?

/-! ## Registrations -/

/-- Whoever is registered in a step was before, or is a machine, or an action named it. -/
theorem Dealing.mem_entries (h : Dealing Allowed b c) (hentry : entry ∈ c.registry.entries) :
    entry ∈ b.registry.entries ∨ Allowed b (.add entry.slot) ∨
      (b.subscription? entry.slot).isSome = true := by
  cases h with
  | unmoved h => exact .inl (h.registry ▸ hentry)
  | plug h => exact .inl hentry
  | attach hm _ =>
    rw [registry_attachMachine] at hentry
    refine (Registry.mem_register hentry).imp_right fun new => .inr ?_
    rw [new]
    exact isSome_subscription?_iff.mpr ⟨_, device?_of_machine? hm⟩
  | detach hm => exact .inl ((Lessened.detachMachine b _ hm).entries.subset hentry)
  | add _ hallowed =>
    rw [registry_subscribe] at hentry
    refine (Registry.mem_register hentry).imp_right fun new => .inl ?_
    rw [new]
    exact hallowed
  | remove _ => exact .inl ((Lessened.cancel b _).entries.subset hentry)
  | lessen hdevice =>
    exact .inl (((Lessened.modify hdevice).trans (.settle _ _)).entries.subset hentry)
  | setOut key => exact .inl (List.mem_of_mem_filter hentry)

theorem Dealings.callable (h : Dealings (Adds slots) b c)
    (hb : ∀ entry ∈ b.registry.entries, b.Callable slots entry.slot) :
    ∀ entry ∈ c.registry.entries, c.Callable slots entry.slot := by
  refine h.invariant (P := fun d => ∀ entry ∈ d.registry.entries, d.Callable slots entry.slot)
    (fun {d e} dealing hd entry hentry => ?_) hb
  have before : d.Callable slots entry.slot := by
    rcases dealing.mem_entries hentry with old | named | machine
    · exact hd entry old
    · exact .inl (named List.mem_cons_self)
    · exact .inr machine
  exact before.dealings dealing.dealings

theorem enrolled_empty (slots : List Slot) (pruning : Pruning) :
    (empty pruning).Enrolled slots :=
  ⟨fun _ ho => absurd ho List.not_mem_nil, fun h => absurd h List.not_mem_nil⟩

/-- Everything may be registered that is, or that some script names. -/
theorem enrolled_self (b : Board) {more : List Slot} : b.Enrolled
    (b.registry.audience ++ b.outlets.flatMap (fun o => o.device.added) ++ more) where
  scripts o ho _ hslot :=
    List.mem_append_left _ (List.mem_append_right _ (List.mem_flatMap.mpr ⟨o, ho, hslot⟩))
  registered h :=
    .inl (List.mem_append_left _ (List.mem_append_left _ (List.mem_map_of_mem h)))

/-! ## Room -/

theorem room_le (slots : List Slot) (b : Board) : b.room slots ≤ slots.eraseDups.length :=
  List.length_filter_le _ _

theorem Returned.room_eq (h : Returned b c) (slots : List Slot) : c.room slots = b.room slots := by
  unfold room
  simp only [h.busy]

theorem room_setBusy_le (b : Board) (slots : List Slot) (slot : Slot) :
    (b.setBusy slot true).room slots ≤ b.room slots := by
  unfold room
  rw [← List.countP_eq_length_filter, ← List.countP_eq_length_filter]
  refine List.countP_mono_left fun other _ free => ?_
  simp only [Bool.not_eq_true'] at free ⊢
  by_contra busy
  rw [isBusy_setBusy_of_isBusy (Bool.not_eq_false _ ▸ busy)] at free
  cases free

/-- A device that was free takes up room when it is used. -/
theorem room_setBusy_lt {device : Device} (hdevice : b.device? slot = some device)
    (hfree : b.isBusy slot = false) (hslot : slot ∈ slots) :
    (b.setBusy slot true).room slots < b.room slots := by
  have left : (slots.eraseDups.filter fun other => !(b.setBusy slot true).isBusy other) =
      (slots.eraseDups.filter fun other => !b.isBusy other).filter fun other => other ≠ slot := by
    rw [List.filter_filter]
    refine List.filter_congr fun other _ => ?_
    by_cases same : slot = other
    · subst same
      simp [isBusy_setBusy_true hdevice]
    · simp [isBusy_setBusy_of_ne same, Ne.symm same]
  have there : slot ∈ slots.eraseDups.filter fun other => !b.isBusy other :=
    List.mem_filter.mpr ⟨List.mem_eraseDups.mpr hslot, by simp [hfree]⟩
  unfold room
  rw [left, List.length_filter_lt_length_iff_exists]
  exact ⟨slot, there, by simp⟩

/-! ## Scripts -/

/-- Scripts are courses of actions that name no other slots. -/
theorem courseOf_hearing_of_added (depth : ℕ) (slot : Slot) {script : List Action}
    (hb : b.Every fun device => device.added ⊆ slots) (hscript : addedByAll script ⊆ slots) :
    CourseOf (Adds slots) b (hearing depth slot script b) :=
  .hearing (Device.lasting_added slots)
    (fun h action hmem _ => addedByAll_subset_iff.mp h action hmem) depth slot script b hb hscript

theorem Enrolled.of_dealings (hb : b.Enrolled slots) (h : Dealings (Adds slots) b c)
    (hc : c.Every fun device => device.added ⊆ slots) : c.Enrolled slots :=
  ⟨hc, fun {entry} => h.callable (fun _ => hb.registered) entry⟩

/-- An action that names no other slots changes nothing about who is enrolled. -/
theorem Enrolled.act (hb : b.Enrolled slots) (depth : ℕ) {action : Action}
    (haction : action.added ⊆ slots) : (b.act depth action).2.Enrolled slots := by
  have acted : CourseOf (Adds slots) b (b.act depth action).2 :=
    .act_of_every (Device.lasting_added slots)
      (fun slot script d hd hscript => courseOf_hearing_of_added depth slot hd hscript) (.stay b)
      hb.scripts haction
  exact hb.of_dealings acted.dealings
    (hb.scripts.act (Device.lasting_added slots) depth haction)

/-- A press begins with as much room, or less if it is pressed while a device is used. -/
theorem Enrolled.pressing (hb : b.Enrolled slots) {action : Action} {key : UInt8}
    (hpress : b.pressing? action = some (d, key)) :
    d.Enrolled slots ∧ d.room slots ≤ b.room slots := by
  have every := hb.scripts.pressing hpress
  cases action with
  | press key =>
    cases hpress
    exact ⟨hb, le_rfl⟩
  | pressBusy slot key =>
    simp only [pressing?] at hpress
    split at hpress
    · next free =>
      cases hpress
      refine ⟨hb.of_dealings (Unmoved.borrow free.1).dealings every, ?_⟩
      have held := (Returned.hold b slot).room_eq slots
      exact held ▸ room_setBusy_le _ slots slot
    · cases hpress
  | _ => cases hpress

/-- A script that is called in a dispatch is in one of the slots, and has less room when it begins
    to respond than there was when the dispatch set out. -/
theorem Enrolled.call {depth : ℕ} {key : UInt8} {before : List Slot} {script : List Action}
    (hd : d.Enrolled slots) (played : d.Plays (hearing depth) key before slot script) :
    (d.atResponse (hearing depth) key before slot).Enrolled slots ∧ slot ∈ slots ∧
      addedByAll script ⊆ slots ∧
      (d.atResponse (hearing depth) key before slot).room slots < d.room slots := by
  obtain ⟨after, haudience⟩ := played.audience
  have turns : Dealings (Adds slots) d (d.atTurn (hearing depth) key before) := by
    refine Dealings.composed.atTurn ?_ played.isKey played.isUp
      (haudience ▸ List.prefix_append _ _)
    intro earlier other script _ played
    obtain ⟨every, named⟩ := hd.scripts.response (Device.lasting_added slots) played
    have response := courseOf_hearing_of_added depth other every named
    exact .deliver response.dealings
  obtain ⟨every, named⟩ := hd.scripts.response (Device.lasting_added slots) played
  have hslot : slot ∈ slots := by
    have there : slot ∈ d.audience := by simp [haudience]
    obtain ⟨entry, hentry, rfl⟩ := List.mem_map.mp (mem_audience_iff.mp there).1
    refine (hd.registered hentry).resolve_right fun machine => ?_
    have still := turns.isSome_subscription? machine
    rw [subscription?_eq_none_of_script played.device] at still
    cases still
  refine ⟨hd.of_dealings (turns.trans (Unmoved.heardBy _ _ _ _).dealings) every, hslot, named, ?_⟩
  have same := (Returned.atTurn (responsive_hearing depth) played.isKey played.isUp
    (haudience ▸ List.prefix_append _ _)).room_eq slots
  rw [← same]
  exact room_setBusy_lt (b := Board.tell _ _) played.device played.free hslot

/-! ## What is told -/

/-- Whether an event may be told: no script is cut short, and only those are called who could be. -/
def Heeds (slots : List Slot) (b : Board) : Event → Prop
  | .heard _ slot _ => b.Callable slots slot
  | .tooDeep _ => False
  | .pressed _ | .released _ | .dispatched _ _ _ | .done _ _ | .skipped _ _ _ | .finished _
  | .noted _ _ _ | .reported _ => True

/-- Only such events were told in between, while actions named only some slots. -/
structure Heedful (slots : List Slot) (b c : Board) : Prop where
  dealings : Dealings (Adds slots) b c
  told {event : Event} (h : event ∈ c.history) : event ∈ b.history ∨ c.Heeds slots event

theorem Heeds.dealings {event : Event} (hb : b.Heeds slots event) (h : Dealings Allowed b c) :
    c.Heeds slots event := by
  cases event with
  | heard number slot key => exact Callable.dealings hb h
  | tooDeep slot => exact hb
  | _ => trivial

theorem heeds_of_isAside {event : Event} (h : event.IsAside) : b.Heeds slots event := by
  cases event with
  | heard number slot key => exact h.elim
  | tooDeep slot => exact h.elim
  | _ => trivial

theorem Heedful.refl (b : Board) : Heedful slots b b := ⟨.refl b, .inl⟩

theorem Heedful.trans (h : Heedful slots b c) (h' : Heedful slots c d) : Heedful slots b d where
  dealings := h.dealings.trans h'.dealings
  told hevent := by
    rcases h'.told hevent with before | new
    · exact (h.told before).imp_right fun new => new.dealings h'.dealings
    · exact .inr new

theorem Heedful.of_history_eq (h : Dealings (Adds slots) b c) (hhistory : c.history = b.history) :
    Heedful slots b c :=
  ⟨h, fun hevent => .inl (hhistory ▸ hevent)⟩

theorem Heedful.tell {event : Event} (h : (b.tell event).Heeds slots event) :
    Heedful slots b (b.tell event) := by
  refine ⟨(Unmoved.tell b event).dealings, fun hevent => ?_⟩
  rcases List.mem_cons.mp hevent with rfl | before
  · exact .inr h
  · exact .inl before

/-- Chores put nothing into the history but what goes into the journal. -/
theorem Chores.mem_history {touched : Slot → Prop} (h : Chores touched b c) :
    ∀ event ∈ c.history, event ∈ b.history ∨ ∃ entry, event = .reported entry := by
  let R (b c : Board) : Prop :=
    ∀ event ∈ c.history, event ∈ b.history ∨ ∃ entry, event = .reported entry
  have refl (b : Board) : R b b := fun _ => .inl
  have trans {b c d : Board} (first : R b c) (later : R c d) : R b d := by
    intro event hevent
    rcases later event hevent with before | new
    · exact first event before
    · exact .inr new
  refine h.keeps (R := R) refl trans fun {b c} chore => ?_
  cases chore with
  | report entries =>
    refine related_report refl trans (fun b entry event hevent => ?_) b entries
    exact (List.mem_cons.mp hevent).symm.imp_right fun new => ⟨entry, new⟩
  | _ => exact refl b

theorem Heedful.of_chores {touched : Slot → Prop} (hdealings : Dealings (Adds slots) b c)
    (h : Chores touched b c) : Heedful slots b c := by
  refine ⟨hdealings, fun {event} hevent => (h.mem_history event hevent).imp_right ?_⟩
  rintro ⟨entry, rfl⟩
  trivial

theorem Heedful.report (b : Board) (entries : List Entry) : Heedful slots b (b.report entries) := by
  have reported : Chores (fun _ => True) b (b.report entries) := (Chore.report b entries).chores
  exact .of_chores (Unmoved.report b entries).dealings reported

theorem Heedful.release (b : Board) (key : UInt8) : Heedful slots b (b.release key) := by
  have told : Heedful slots b (b.tell (.released key)) := .tell trivial
  have unmoved : Dealings (Adds slots) b (b.release key) := (Unmoved.release b key).dealings
  unfold Board.release at unmoved ⊢
  simp only at unmoved ⊢
  split at unmoved
  · next hkey =>
    rw [if_pos hkey]
    exact ⟨unmoved, told.told⟩
  · next hkey =>
    rw [if_neg hkey]
    exact told.trans (.report _ _)

theorem Heedful.setOut (b : Board) (key : UInt8) : Heedful slots b (b.setOut key) := by
  refine ⟨(Dealing.setOut b key).dealings, fun hevent => ?_⟩
  rcases List.mem_cons.mp hevent with rfl | earlier
  · exact .inr trivial
  · rcases List.mem_cons.mp earlier with rfl | before
    · exact .inr trivial
    · exact .inl before

theorem Heedful.letGo (b : Board) (slot : Slot) : Heedful slots b (b.letGo slot) := by
  refine ⟨.letGo b slot, fun {event} hevent => ?_⟩
  refine ((chores_settle _ slot).mem_history event hevent).imp_right ?_
  rintro ⟨entry, rfl⟩
  trivial

/-- A listener may be called if it could be, and if nothing else is told meanwhile. -/
theorem Heedful.deliver {play : Play} {number : ℕ} {key : UInt8} {device : Device}
    (hslot : b.Callable slots slot) (h : Heedful slots (b.heardBy number key slot)
      ((b.heardBy number key slot).respond play key slot device)) :
    Heedful slots b (b.deliver play number key slot device) := by
  have told : Heedful slots b (b.tell (.heard number slot key)) := .tell hslot
  have used {c : Board} (busy : Bool) : Heedful slots c (c.setBusy slot busy) :=
    .of_history_eq (Unmoved.setBusy c slot busy).dealings rfl
  rw [deliver_eq]
  exact (((told.trans (used true)).trans h).trans (used false)).trans (.tell trivial)

theorem Heedful.composed : Composed (Adds slots) (Heedful slots) where
  refl := .refl
  trans := .trans
  quiet play b _ hquiet hallowed :=
    .of_chores (.quiet play hquiet hallowed) (chores_perform hquiet b)
  tell _ _ h := .tell (heeds_of_isAside h)
  release := .release
  setOut := .setOut
  hold h := .of_history_eq (Unmoved.hold h).dealings rfl
  letGo := .letGo
  hear play {b slot m} number key h _ := by
    have there : (b.heardBy number key slot).device? slot = some (.machine m) :=
      (device?_setBusy _ _ _ _).trans h
    have hears : Unmoved (b.heardBy number key slot)
        ((b.heardBy number key slot).setMachine slot (m.hear key)) :=
      .setMachine there rfl
    exact .deliver (.inr (isSome_subscription?_iff.mpr ⟨m, h⟩)) (.of_history_eq hears.dealings rfl)
  borrow {b c slot} _ h := by
    have used : Heedful slots b (b.setBusy slot true) :=
      .of_history_eq (Unmoved.setBusy b slot true).dealings rfl
    exact (used.trans h).trans (.of_history_eq (Unmoved.setBusy c slot false).dealings rfl)

/-- An action is heedful if there is room for the scripts that it makes listeners play. -/
theorem Enrolled.heedful_act {depth : ℕ}
    (hplay : ∀ slot script d, d.Enrolled slots → addedByAll script ⊆ slots →
      d.room slots < depth → Heedful slots d (hearing depth slot script d))
    (hb : b.Enrolled slots) (hroom : b.room slots ≤ depth) {action : Action}
    (haction : action.added ⊆ slots) : Heedful slots b (b.act depth action).2 := by
  refine Heedful.composed.perform haction fun d key hpress before slot script played => ?_
  obtain ⟨hd, less⟩ := hb.pressing hpress
  obtain ⟨enrolled, hslot, named, room⟩ := hd.call played
  have heedful := hplay slot script _ enrolled named (room.trans_le (less.trans hroom))
  exact .deliver (.inl hslot) heedful

end Board

end Chip8
