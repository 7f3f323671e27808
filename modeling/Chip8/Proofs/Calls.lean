import Chip8.Proofs.RegistrationSteps

/-!
# Calls in progress

A listener that hears a key is busy until it is through with it, and a dispatch leaves out whoever
is busy at its turn. So at every moment the calls that are in progress are calls of different
listeners, each of them busy, although listeners may press keys themselves.

* `Call`, `calls`: the calls in progress, read off what was told.
* `Board.Orderly`: they are calls of different busy listeners, and have been all the time.
* `Board.Returned`: whoever was called in between is through.
* `Course.returned`, `Moment.orderly`: courses of actions leave as many calls in progress as they
  find, and every moment is orderly.
-/

namespace Chip8

/-- A call of a listener by a dispatch. -/
structure Call where
  dispatch : ℕ
  slot : Slot
  deriving Repr, DecidableEq

/-- The calls that are in progress when these events were told, the latest first. -/
def calls : List Event → List Call
  | [] => []
  | .heard number slot _ :: past => ⟨number, slot⟩ :: calls past
  | .done number slot :: past => (calls past).erase ⟨number, slot⟩
  | _ :: past => calls past

/-- Whether a call begins or ends with an event. -/
def Event.IsOfCall : Event → Prop
  | .heard _ _ _ | .done _ _ => True
  | .pressed _ | .released _ | .dispatched _ _ _ | .skipped _ _ _ | .finished _ | .noted _ _ _
  | .reported _ | .tooDeep _ => False

theorem Event.IsAside.not_isOfCall {event : Event} (h : event.IsAside) : ¬ event.IsOfCall := by
  intro call
  cases event with
  | heard number slot key => exact h
  | done number slot => exact h
  | _ => exact call

theorem Event.IsNote.not_isOfCall {event : Event} (h : event.IsNote) : ¬ event.IsOfCall := by
  intro call
  cases event with
  | noted slot action answer => exact call
  | tooDeep slot => exact call
  | _ => exact h

theorem calls_cons {event : Event} (h : ¬ event.IsOfCall) (past : List Event) :
    calls (event :: past) = calls past := by
  cases event with
  | heard number slot key => exact absurd trivial h
  | done number slot => exact absurd trivial h
  | _ => rfl

/-- A call in progress is one of a listener that heard a key. -/
theorem exists_heard_of_mem_calls {call : Call} {past : List Event} (h : call ∈ calls past) :
    ∃ key, .heard call.dispatch call.slot key ∈ past := by
  induction past with
  | nil => exact absurd h List.not_mem_nil
  | cons event past ih =>
    have earlier (there : call ∈ calls past) :
        ∃ key, .heard call.dispatch call.slot key ∈ event :: past := by
      obtain ⟨key, hkey⟩ := ih there
      exact ⟨key, List.mem_cons_of_mem _ hkey⟩
    cases event with
    | heard number slot key =>
      rcases List.mem_cons.mp h with rfl | there
      · exact ⟨key, List.mem_cons_self⟩
      · exact earlier there
    | done number slot => exact earlier (List.mem_of_mem_erase h)
    | _ => exact earlier h

namespace Board

/-- Whether the calls in progress are calls of busy listeners, and have been calls of different
    listeners at every moment so far. -/
structure Orderly (b : Board) : Prop where
  busy {call : Call} (h : call ∈ calls b.history) : b.isBusy call.slot = true
  distinct {past : List Event} (h : past <:+ b.history) : ((calls past).map (·.slot)).Nodup

/-- The same calls are in progress on two boards, the same devices are busy, and all was in order in
    between. -/
structure Returned (b c : Board) : Prop where
  calls : calls c.history = calls b.history
  busy (slot : Slot) : c.isBusy slot = b.isBusy slot
  orderly (h : b.Orderly) : c.Orderly

variable {b c : Board} {slot : Slot}

/-! ## Who is busy -/

theorem isBusy_modify {f : Outlet → Outlet} (hf : ∀ o, (f o).busy = o.busy) (other : Slot) :
    (b.modify slot f).isBusy other = b.isBusy other := by
  unfold isBusy
  rw [outlet?_modify, Option.any_map]
  refine congrArg (Option.any · _) (funext fun o => ?_)
  by_cases same : slot = other
  · simp [same, hf]
  · simp [same]

theorem isBusy_setBusy_of_ne {other : Slot} (hne : slot ≠ other) (busy : Bool) :
    (b.setBusy slot busy).isBusy other = b.isBusy other := by
  rw [isBusy, setBusy, outlet?_modify_of_ne hne, isBusy]

theorem isBusy_setBusy_false (b : Board) (slot : Slot) :
    (b.setBusy slot false).isBusy slot = false := by
  unfold isBusy setBusy
  rw [outlet?_modify, Option.any_map]
  simp

theorem isBusy_setBusy_true {device : Device} (h : b.device? slot = some device) :
    (b.setBusy slot true).isBusy slot = true := by
  obtain ⟨o, ho, -⟩ := Option.map_eq_some_iff.mp h
  rw [isBusy, setBusy, outlet?_modify_self ho, Option.any_some]

theorem isBusy_setBusy_of_isBusy {other : Slot} (h : b.isBusy other = true) :
    (b.setBusy slot true).isBusy other = true := by
  by_cases same : slot = other
  · subst same
    obtain ⟨o, ho, -⟩ := (Option.any_eq_true _ _).mp h
    exact isBusy_setBusy_true (device?_of_outlet? ho)
  · rwa [isBusy_setBusy_of_ne same]

theorem isBusy_plug (b : Board) (device : Device) (slot : Slot) :
    (b.plug device).2.isBusy slot = b.isBusy slot := by
  unfold isBusy
  rw [outlet?_plug]
  split
  · next new =>
    have none : b.outlet? slot = none := List.getElem?_eq_none_iff.mpr new.ge
    rw [none]
    rfl
  · rfl

/-! ## Parts of actions -/

/-- Whoever was busy before is busy after, so it is left to show that no listener was called
    twice. -/
theorem Returned.of_distinct (hcalls : Chip8.calls c.history = Chip8.calls b.history)
    (hbusy : ∀ slot, c.isBusy slot = b.isBusy slot)
    (hdistinct : b.Orderly → ∀ past, past <:+ c.history →
      ((Chip8.calls past).map (·.slot)).Nodup) : Returned b c where
  calls := hcalls
  busy := hbusy
  orderly hb := by
    refine ⟨fun {call} h => ?_, fun {past} => hdistinct hb past⟩
    rw [hcalls] at h
    rw [hbusy]
    exact hb.busy h

theorem Orderly.nodup_of_suffix (hb : b.Orderly) {event : Event} {past : List Event}
    (hnew : ((calls (event :: b.history)).map (·.slot)).Nodup) (h : past <:+ event :: b.history) :
    ((calls past).map (·.slot)).Nodup := by
  rcases List.suffix_cons_iff.mp h with rfl | earlier
  · exact hnew
  · exact hb.distinct earlier

theorem Returned.refl (b : Board) : Returned b b := ⟨rfl, fun _ => rfl, id⟩

theorem Returned.trans {d : Board} (h : Returned b c) (h' : Returned c d) : Returned b d where
  calls := h'.calls.trans h.calls
  busy slot := (h'.busy slot).trans (h.busy slot)
  orderly hb := h'.orderly (h.orderly hb)

theorem Returned.of_busy_eq (hhistory : c.history = b.history)
    (hbusy : ∀ slot, c.isBusy slot = b.isBusy slot) : Returned b c :=
  .of_distinct (congrArg Chip8.calls hhistory) hbusy fun hb _ h => hb.distinct (hhistory ▸ h)

theorem Returned.modify (slot : Slot) {f : Outlet → Outlet} (hf : ∀ o, (f o).busy = o.busy) :
    Returned b (b.modify slot f) :=
  .of_busy_eq rfl (isBusy_modify hf)

/-- An event may be told with which no call begins or ends. -/
theorem Returned.tell (b : Board) (event : Event) (h : ¬ event.IsOfCall) :
    Returned b (b.tell event) := by
  refine .of_distinct (calls_cons h b.history) (fun _ => rfl) fun hb past => ?_
  refine hb.nodup_of_suffix ?_
  rw [calls_cons h]
  exact hb.distinct List.suffix_rfl

theorem Returned.report (b : Board) (entries : List Entry) : Returned b (b.report entries) :=
  related_report .refl .trans (fun b entry => .tell b (.reported entry) id) b entries

theorem Chore.returned {touched : Slot → Prop} (h : Chore touched b c) : Returned b c := by
  cases h with
  | report entries => exact .report b entries
  | setMachine _ m => exact .modify _ fun _ => rfl
  | plug device => exact .of_busy_eq rfl (b.isBusy_plug device)
  | empty _ => exact .modify _ fun _ => rfl
  | register _ => exact .of_busy_eq rfl fun _ => rfl
  | unregister ticket => exact .of_busy_eq rfl fun _ => rfl
  | forget _ => exact .of_busy_eq rfl fun _ => rfl

theorem Chores.returned {touched : Slot → Prop} (h : Chores touched b c) : Returned b c :=
  h.keeps .refl .trans Chore.returned

theorem Returned.release (b : Board) (key : UInt8) : Returned b (b.release key) := by
  have told : Returned b (b.tell (.released key)) := .tell b _ id
  unfold Board.release
  simp only
  split
  · exact told.trans (.of_busy_eq rfl fun _ => rfl)
  · exact told.trans (.report _ _)

theorem Returned.setOut (b : Board) (key : UInt8) : Returned b (b.setOut key) := by
  have told : Returned b ((b.tell (.pressed key)).tell (.dispatched b.dispatches key b.audience)) :=
    (Returned.tell b _ id).trans (.tell _ _ id)
  exact told.trans (.of_busy_eq rfl fun _ => rfl)

/-! ## Calls -/

/-- A device that is used is busy. -/
theorem Orderly.setBusy (hb : b.Orderly) (slot : Slot) : (b.setBusy slot true).Orderly :=
  ⟨fun h => isBusy_setBusy_of_isBusy (hb.busy h), fun h => hb.distinct h⟩

/-- Whoever is called is not called already, since it is free. -/
theorem Orderly.heardBy (hb : b.Orderly) {device : Device} (hdevice : b.device? slot = some device)
    (hfree : b.isBusy slot = false) (number : ℕ) (key : UInt8) :
    (b.heardBy number key slot).Orderly := by
  have new : slot ∉ (calls b.history).map (·.slot) := by
    intro called
    obtain ⟨call, hcall, rfl⟩ := List.mem_map.mp called
    exact Bool.false_ne_true (hfree.symm.trans (hb.busy hcall))
  refine ⟨fun {call} h => ?_, fun {past} h => ?_⟩
  · rcases List.mem_cons.mp h with rfl | earlier
    · exact isBusy_setBusy_true (b := b.tell _) hdevice
    · exact isBusy_setBusy_of_isBusy (b := b.tell _) (hb.busy earlier)
  · have nodup : ((calls (.heard number slot key :: b.history)).map (·.slot)).Nodup :=
      List.nodup_cons.mpr ⟨new, hb.distinct List.suffix_rfl⟩
    exact hb.nodup_of_suffix nodup h

/-- A device that was free is free again when somebody used it. -/
theorem isBusy_giveBack (hfree : b.isBusy slot = false)
    (h : ∀ other, c.isBusy other = (b.setBusy slot true).isBusy other) (other : Slot) :
    (c.setBusy slot false).isBusy other = b.isBusy other := by
  by_cases same : slot = other
  · subst same
    rw [isBusy_setBusy_false, hfree]
  · rw [isBusy_setBusy_of_ne same, h, isBusy_setBusy_of_ne same]

theorem Returned.borrow (hfree : b.isBusy slot = false) (h : Returned (b.setBusy slot true) c) :
    Returned b (c.setBusy slot false) :=
  .of_distinct h.calls (isBusy_giveBack hfree h.busy)
    fun hb _ => (h.orderly (hb.setBusy slot)).distinct

/-- A listener that was called is through when it has answered. -/
theorem Returned.deliver {play : Play} {number : ℕ} {key : UInt8} {device : Device}
    (hdevice : b.device? slot = some device) (hfree : b.isBusy slot = false)
    (h : Returned (b.heardBy number key slot)
      ((b.heardBy number key slot).respond play key slot device)) :
    Returned b (b.deliver play number key slot device) := by
  rw [deliver_eq]
  have answered : Chip8.calls ((b.heardBy number key slot).respond play key slot device).history =
      ⟨number, slot⟩ :: Chip8.calls b.history :=
    h.calls
  have ended : Chip8.calls (.done number slot ::
      ((b.heardBy number key slot).respond play key slot device).history) =
        Chip8.calls b.history := by
    rw [Chip8.calls, answered, List.erase_cons_head]
  refine .of_distinct ended (isBusy_giveBack hfree h.busy) fun hb past hpast => ?_
  refine (h.orderly (hb.heardBy hdevice hfree number key)).nodup_of_suffix ?_ hpast
  rw [ended]
  exact hb.distinct List.suffix_rfl

theorem Returned.hold (b : Board) (slot : Slot) : Returned b (b.hold slot) :=
  .modify slot fun _ => rfl

theorem Returned.letGo (b : Board) (slot : Slot) : Returned b (b.letGo slot) := by
  have given : Returned b (b.modify slot fun o => { o with holds := o.holds - 1 }) :=
    .modify slot fun _ => rfl
  exact given.trans (chores_settle _ slot).returned

theorem Returned.composed : Composed (fun _ _ => True) Returned where
  refl := .refl
  trans := .trans
  quiet _ b _ hquiet _ := (chores_perform hquiet b).returned
  tell b event h := .tell b event h.not_isOfCall
  release := .release
  setOut := .setOut
  hold _ := .hold _ _
  letGo := .letGo
  hear _ _ _ _ _ _ h hfree := .deliver h hfree (.modify _ fun _ => rfl)
  borrow := .borrow

/-! ## Courses and moments -/

/-- A course of actions leaves as many calls in progress as it finds. -/
theorem Course.returned (h : Course b c) : Returned b c := by
  induction h with
  | stay b => exact .refl b
  | act _ action _ ihplay ih =>
    refine ih.trans (Returned.composed.perform trivial ?_)
    intro d key _ before slot script played
    exact .deliver played.device played.free (ihplay slot script _)
  | note hnote _ ih => exact ih.trans (.tell _ _ hnote.not_isOfCall)

/-- In the middle of a dispatch, whoever it has called is through. -/
theorem Returned.atTurn {play : Play} (hplay : Responsive play) {key : UInt8} {before : List Slot}
    (hkey : isKey key = true) (hup : b.held.isDown key = false) (hbefore : before <+: b.audience) :
    Returned b (b.atTurn play key before) := by
  refine Returned.composed.atTurn ?_ hkey hup hbefore
  intro earlier other script _ played
  exact .deliver played.device played.free (hplay other script _).returned

/-- At every moment, the calls in progress are calls of different busy listeners. -/
theorem Moment.orderly (h : b.Moment) : b.Orderly := by
  induction h with
  | start pruning =>
    refine ⟨fun {call} hcall => absurd hcall List.not_mem_nil, fun {past} hpast => ?_⟩
    rw [List.suffix_nil.mp hpast]
    exact List.nodup_nil
  | course _ hc ih => exact hc.returned.orderly ih
  | @borrow b slot _ _ _ ih => exact ((Returned.hold b slot).orderly ih).setBusy slot
  | response _ hplay hkey hup haudience hdevice hfree ih =>
    have turns := Returned.atTurn hplay hkey hup (haudience ▸ List.prefix_append _ _)
    exact (turns.orderly ih).heardBy hdevice hfree _ _

end Board

end Chip8
