import Chip8.Proofs.Devices
import Mathlib.Logic.Relation

/-!
# Quiet actions

An action that neither presses nor releases a key is done in single changes of a few kinds: entries
go into the journal, machines are replaced, devices are plugged in and out, registrations come and
go. So is what the death of a device brings about. What each of these changes keeps is therefore
kept by all such actions.

* `Action.IsQuiet`: the actions that neither press nor release a key.
* `related_of_steps`, `related_report`, `related_foldl_hold`, `related_withMachine`: what is done in
  several steps is in every reflexive and transitive relation that the steps are in.
* `Board.Chore`: the single changes, with the slots whose devices they may change.
* `Board.Chores`: sequences of them, and `Chores.keeps`, what they keep.
* `Chores.settle`: a death is made of chores.
* `Chores.perform`: so is every action that neither presses nor releases a key.
-/

namespace Chip8

/-- Whether an action neither presses nor releases a key. -/
def Action.IsQuiet : Action → Prop
  | .press _ | .pressBusy _ _ | .release _ => False
  | .plugScript _ | .plugMachine _ _ | .attach _ | .detach _ | .operate _ _ | .add _ | .remove _
  | .unplug _ | .askKey _ | .askCount => True

/-- The slot whose device an action changes. -/
def Action.target? : Action → Option Slot
  | .attach slot | .detach slot | .operate slot _ | .unplug slot => some slot
  | .plugScript _ | .plugMachine _ _ | .add _ | .remove _ | .press _ | .pressBusy _ _ | .release _
  | .askKey _ | .askCount => none

theorem Outlet.machine?_eq_some_iff {o : Outlet} {m : Machine} :
    o.machine? = some m ↔ o.device = .machine m ∧ o.plugged = true := by
  unfold Outlet.machine?
  cases o.device with
  | machine n =>
    cases o.plugged with
    | true => simp
    | false => simp
  | script actions => simp

namespace Board

variable {touched : Slot → Prop} {b c : Board} {slot : Slot}

/-! ## Outlets -/

theorem isAlive_eq_true_iff :
    b.isAlive slot = true ↔ ∃ o, b.outlet? slot = some o ∧ o.isAlive = true := by
  unfold isAlive
  exact Option.any_eq_true _ _

theorem isAlive_of_plugged? (h : (b.plugged? slot).isSome = true) : b.isAlive slot = true := by
  obtain ⟨o, ho⟩ := Option.isSome_iff_exists.mp h
  obtain ⟨houtlet, hplugged⟩ := Option.filter_eq_some_iff.mp ho
  refine isAlive_eq_true_iff.mpr ⟨o, houtlet, ?_⟩
  simp [Outlet.isAlive, hplugged]

theorem isAlive_of_machine? {m : Machine} (h : b.machine? slot = some m) :
    b.isAlive slot = true := by
  obtain ⟨o, ho, hm⟩ := Option.bind_eq_some_iff.mp h
  refine isAlive_eq_true_iff.mpr ⟨o, ho, ?_⟩
  simp [Outlet.isAlive, (Outlet.machine?_eq_some_iff.mp hm).2]

theorem device?_of_outlet? {o : Outlet} (ho : b.outlet? slot = some o) :
    b.device? slot = some o.device := by
  rw [device?, ho, Option.map_some]

theorem outlet?_modify (b : Board) (slot other : Slot) (f : Outlet → Outlet) :
    (b.modify slot f).outlet? other =
      (b.outlet? other).map fun o => if slot = other then f o else o := by
  unfold modify outlet?
  rw [List.getElem?_modify]
  by_cases h : slot = other
  · simp [h]
  · simp [h]

theorem outlet?_modify_self {o : Outlet} (ho : b.outlet? slot = some o) (f : Outlet → Outlet) :
    (b.modify slot f).outlet? slot = some (f o) := by
  rw [outlet?_modify, ho, Option.map_some, if_pos rfl]

theorem outlet?_modify_of_ne {other : Slot} (hne : other ≠ slot) (f : Outlet → Outlet) :
    (b.modify other f).outlet? slot = b.outlet? slot := by
  rw [outlet?_modify]
  simp only [hne, ↓reduceIte, Option.map_id']

theorem outlet?_plug (b : Board) (device : Device) (slot : Slot) :
    (b.plug device).2.outlet? slot =
      if slot = b.outlets.length then some ⟨device, true, 0, false⟩ else b.outlet? slot := by
  change (b.outlets ++ [(⟨device, true, 0, false⟩ : Outlet)])[slot]? = _
  rcases Nat.lt_trichotomy slot b.outlets.length with lt | rfl | gt
  · rw [if_neg lt.ne, List.getElem?_append_left lt]
    rfl
  · simp
  · have outside : b.outlet? slot = none := List.getElem?_eq_none_iff.mpr gt.le
    rw [if_neg gt.ne', outside, List.getElem?_eq_none_iff, List.length_append]
    exact gt

/-- A new device does not come into a slot that is there. -/
theorem outlet?_plug_of_some {o : Outlet} (ho : b.outlet? slot = some o) (device : Device) :
    (b.plug device).2.outlet? slot = some o := by
  rw [outlet?_plug, if_neg (List.getElem?_eq_some_iff.mp ho).1.ne, ho]

theorem isAlive_hold {other : Slot} (h : b.isAlive slot = true) :
    (b.hold other).isAlive slot = true := by
  obtain ⟨o, ho, alive⟩ := isAlive_eq_true_iff.mp h
  have after : (b.hold other).outlet? slot =
      some (if other = slot then { o with holds := o.holds + 1 } else o) := by
    unfold Board.hold
    rw [outlet?_modify, ho, Option.map_some]
  refine isAlive_eq_true_iff.mpr ⟨_, after, ?_⟩
  split
  · simp [Outlet.isAlive]
  · exact alive

/-! ## What is done in several steps -/

section Steps

variable {R : Board → Board → Prop} (hrefl : ∀ b, R b b)
  (htrans : ∀ {b c d}, R b c → R c d → R b d)

include hrefl

theorem related_withMachine {use : Machine → Answer × Board}
    (h : ∀ m, b.machine? slot = some m → R b (use m).2) : R b (b.withMachine slot use).2 := by
  unfold Board.withMachine
  split
  · next m hm =>
    split
    · exact hrefl b
    · exact h m hm
  · exact hrefl b

include htrans

theorem related_of_steps {Step : Board → Board → Prop} (hstep : ∀ {b c}, Step b c → R b c)
    (h : Relation.ReflTransGen Step b c) : R b c := by
  induction h with
  | refl => exact hrefl b
  | tail _ step ih => exact htrans ih (hstep step)

theorem related_report (htell : ∀ b entry, R b (b.tell (.reported entry))) (b : Board)
    (entries : List Entry) : R b (b.report entries) :=
  List.foldlRecOn entries _ (hrefl b) fun c before entry _ => htrans before (htell c entry)

/-- Devices that are alive stay so while others are taken hold of. -/
theorem related_foldl_hold (hhold : ∀ {b slot}, b.isAlive slot = true → R b (b.hold slot))
    {slots : List Slot} (h : ∀ slot ∈ slots, b.isAlive slot = true) :
    R b (slots.foldl hold b) := by
  induction slots generalizing b with
  | nil => exact hrefl b
  | cons slot rest ih =>
    obtain ⟨first, later⟩ := List.forall_mem_cons.mp h
    exact htrans (hhold first) (ih fun other hother => isAlive_hold (later other hother))

end Steps

/-- What every step keeps lasts. -/
theorem invariant_of_steps {Step : Board → Board → Prop} {P : Board → Prop}
    (hP : ∀ {b c}, Step b c → P b → P c) (h : Relation.ReflTransGen Step b c) (hb : P b) : P c :=
  related_of_steps (R := fun b c => P b → P c) (fun _ => id)
    (fun first later hb => later (first hb)) hP h hb

/-! ## Single changes -/

/-- A single change that tells of no key and holds on to no device. It changes the devices of the
    slots that are `touched` only. -/
inductive Chore (touched : Slot → Prop) : Board → Board → Prop where
  /-- Entries go into the journal. -/
  | report (b : Board) (entries : List Entry) : Chore touched b (b.report entries)
  /-- A machine is replaced. -/
  | setMachine (b : Board) {slot : Slot} (h : touched slot) (m : Machine) :
      Chore touched b (b.setMachine slot m)
  /-- A device is plugged in. -/
  | plug (b : Board) (device : Device) : Chore touched b (b.plug device).2
  /-- A slot is emptied. -/
  | empty (b : Board) {slot : Slot} (h : touched slot) :
      Chore touched b (b.modify slot fun o => { o with plugged := false })
  /-- A device that is alive is registered. -/
  | register {b : Board} {slot : Slot} (h : b.isAlive slot = true) :
      Chore touched b { b with registry := (b.registry.register slot).2.1 }
  /-- A ticket is given back. -/
  | unregister (b : Board) (ticket : Ticket) :
      Chore touched b { b with registry := (b.registry.unregister ticket).1 }
  /-- A dead device is taken off the list. -/
  | forget {b : Board} {slot : Slot} (h : b.isAlive slot = false) :
      Chore touched b { b with registry := b.registry.forget slot }

/-- Sequences of such changes. -/
def Chores (touched : Slot → Prop) : Board → Board → Prop := Relation.ReflTransGen (Chore touched)

theorem Chore.chores (h : Chore touched b c) : Chores touched b c := Relation.ReflTransGen.single h

theorem Chores.refl (b : Board) : Chores touched b b := Relation.ReflTransGen.refl

theorem Chores.trans {d : Board} (h : Chores touched b c) (h' : Chores touched c d) :
    Chores touched b d :=
  Relation.ReflTransGen.trans h h'

/-- What single changes keep is kept by sequences of them. -/
theorem Chores.keeps {R : Board → Board → Prop} (hrefl : ∀ b, R b b)
    (htrans : ∀ {b c d}, R b c → R c d → R b d) (hR : ∀ {b c}, Chore touched b c → R b c)
    (h : Chores touched b c) : R b c :=
  related_of_steps hrefl htrans hR h

/-! ## Deaths and actions -/

theorem Chores.subscribe (h : b.isAlive slot = true) : Chores touched b (b.subscribe slot).2 :=
  (Chore.register h).chores.trans (Chore.report _ _).chores

theorem Chores.cancel (b : Board) (ticket : Ticket) : Chores touched b (b.cancel ticket) :=
  (Chore.unregister b ticket).chores.trans (Chore.report _ _).chores

theorem Chores.attachMachine (halive : b.isAlive slot = true) (h : touched slot) (m : Machine) :
    Chores touched b (b.attachMachine slot m) :=
  (Chores.subscribe halive).trans (Chore.setMachine _ h _).chores

theorem Chores.detachMachine (b : Board) (h : touched slot) (m : Machine) :
    Chores touched b (b.detachMachine slot m) := by
  unfold Board.detachMachine
  split
  · exact (Chore.setMachine b h _).chores.trans (.cancel _ _)
  · exact .refl b
  · exact .refl b

/-- The board when a device died, and was taken off the list if that is done at its death. -/
def bury (b : Board) (slot : Slot) : Board :=
  match b.pruning with
  | .atDispatch => b
  | .atDeath => { b with registry := b.registry.forget slot }

theorem bury_cases (b : Board) (slot : Slot) :
    b.bury slot = b ∨ b.bury slot = { b with registry := b.registry.forget slot } := by
  unfold bury
  split
  · exact .inl rfl
  · exact .inr rfl

@[simp] theorem outlets_bury (b : Board) (slot : Slot) : (b.bury slot).outlets = b.outlets := by
  rcases b.bury_cases slot with same | same
  · rw [same]
  · rw [same]

theorem device?_bury (b : Board) (slot other : Slot) :
    (b.bury slot).device? other = b.device? other := by
  unfold device? outlet?
  rw [outlets_bury]

theorem settle_eq (b : Board) (slot : Slot) :
    b.settle slot = if b.isAlive slot then b else
      match (b.bury slot).device? slot with
      | some (.machine m) => (b.bury slot).detachMachine slot m
      | some (.script _) => b.bury slot
      | none => b.bury slot := rfl

/-- A machine that died is detached. -/
theorem settle_of_machine {m : Machine} (dead : b.isAlive slot = false)
    (h : b.device? slot = some (.machine m)) :
    b.settle slot = (b.bury slot).detachMachine slot m := by
  simp only [settle_eq, dead, device?_bury, h, Bool.false_eq_true, ↓reduceIte]

theorem settle_of_no_machine (dead : b.isAlive slot = false)
    (h : ∀ m, b.device? slot ≠ some (.machine m)) : b.settle slot = b.bury slot := by
  simp only [settle_eq, dead, device?_bury, Bool.false_eq_true, ↓reduceIte]
  split
  · next m hm => exact absurd hm (h m)
  · rfl
  · rfl

theorem settle_of_isAlive (h : b.isAlive slot = true) : b.settle slot = b := by
  rw [settle_eq, if_pos h]

theorem Chores.bury (dead : b.isAlive slot = false) : Chores touched b (b.bury slot) := by
  rcases b.bury_cases slot with same | forgotten
  · rw [same]
    exact .refl b
  · rw [forgotten]
    exact (Chore.forget dead).chores

/-- What the death of a device brings about. -/
theorem Chores.settle (h : b.isAlive slot = false → touched slot) :
    Chores touched b (b.settle slot) := by
  rw [settle_eq]
  split
  · exact .refl b
  · next alive =>
    have dead := Bool.eq_false_iff.mpr alive
    have buried : Chores touched b (b.bury slot) := .bury dead
    split
    · exact buried.trans (.detachMachine _ (h dead) _)
    · exact buried
    · exact buried

theorem chores_settle (b : Board) (slot : Slot) : Chores (fun _ => True) b (b.settle slot) :=
  .settle fun _ => trivial

theorem Chores.unplug (b : Board) (h : touched slot) : Chores touched b (b.unplug slot) :=
  (Chore.empty b h).chores.trans (.settle fun _ => h)

/-- An action that neither presses nor releases a key. If it plugs a machine in, it may subscribe
    that. -/
theorem Chores.perform {play : Play} {action : Action} (hquiet : action.IsQuiet)
    (htarget : ∀ slot ∈ action.target?, touched slot) (hnew : touched b.outlets.length) :
    Chores touched b (b.perform play action).2 := by
  cases action with
  | plugScript script => exact (Chore.plug b _).chores
  | plugMachine source subscribed =>
    have plugged : Chores touched b (b.plug (.machine (.new source))).2 := (Chore.plug b _).chores
    simp only [Board.perform]
    split
    · have alive : (b.plug (.machine (.new source))).2.isAlive b.outlets.length = true := by
        simp [isAlive, outlet?, plug, Outlet.isAlive]
      exact plugged.trans (.attachMachine alive hnew _)
    · exact plugged
  | attach slot =>
    simp only [Board.perform, Board.attach]
    split
    · next m hm =>
      split
      · exact .attachMachine (isAlive_of_machine? hm) (htarget slot rfl) _
      · exact .refl b
    · exact .refl b
  | detach slot =>
    exact related_withMachine .refl fun m _ => .detachMachine b (htarget slot rfl) m
  | operate slot op =>
    refine related_withMachine .refl fun m _ => ?_
    exact (Chore.setMachine b (htarget slot rfl) _).chores.trans (Chore.report _ _).chores
  | add slot =>
    simp only [Board.perform]
    split
    · next hplugged => exact .subscribe (isAlive_of_plugged? hplugged)
    · exact .refl b
  | remove ticket => exact .cancel b ticket
  | unplug slot => exact .unplug b (htarget slot rfl)
  | press key => exact hquiet.elim
  | pressBusy slot key => exact hquiet.elim
  | release key => exact hquiet.elim
  | askKey key => exact .refl b
  | askCount => exact .refl b

theorem chores_perform {play : Play} {action : Action} (h : action.IsQuiet) (b : Board) :
    Chores (fun _ => True) b (b.perform play action).2 :=
  .perform h (fun _ _ => trivial) trivial

end Board

end Chip8
