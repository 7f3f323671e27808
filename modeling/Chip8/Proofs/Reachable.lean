import Chip8.Proofs.Execution

/-!
# Machines that come about

A machine comes about by being made and then operated, attached and detached, in any order and
whatever the results. Three bounds hold of every such machine, although no type says so: at most
thirty-two subroutines are open, the index register stays below `0x1000`, and the cursor of a
replayed list stays within the list.

* `Machine.Reachable`: the machines that come about.
* `Machine.Sound`: the three bounds.
* `sound_operate`, `Reachable.sound`: each operation keeps them, so all these machines have them.
-/

namespace Chip8

/-- The sources of random bytes that come about: fresh ones, and what is left of them. -/
inductive ByteSource.Obtainable : ByteSource → Prop where
  | ofBytes (bytes : Array UInt8) : Obtainable (ofBytes bytes)
  | generator (stream : ℕ → UInt8) : Obtainable (generator stream 0)
  | advance {source : ByteSource} (h : source.Obtainable) : Obtainable source.advance

theorem ByteSource.Obtainable.wellPlaced {source : ByteSource} (h : source.Obtainable) :
    source.WellPlaced := by
  induction h with
  | ofBytes bytes => exact wellPlaced_ofBytes bytes
  | generator stream => trivial
  | advance _ ih => exact wellPlaced_advance ih

/-! ## The index register -/

theorem State.advanceIndex_le (s : State) (count : UInt16) : (s.advanceIndex count).i ≤ 0xFFF := by
  rw [UInt16.le_iff_toNat_le]
  change ((s.i + count) &&& 0xFFF).toNat ≤ 0xFFF
  rw [UInt16.toNat_and]
  exact Nat.and_le_right

theorem State.indexGlyph_le (s : State) (b : UInt8) : (s.indexGlyph b).i ≤ 0xFFF := by
  rw [UInt16.le_iff_toNat_le]
  change (UInt16.ofNat (b.toNat % 16 * 5)).toNat ≤ 0xFFF
  have hb := Nat.mod_lt b.toNat (show 16 > 0 by decide)
  rw [UInt16.toNat_ofNat', Nat.mod_eq_of_lt (by omega)]
  omega

/-- An instruction whose operands fit leaves the index register below `0x1000`. -/
theorem State.index_effect_le {s : State} (hs : s.i ≤ 0xFFF) (byte : UInt8)
    {instruction : Instruction Register} (hfits : instruction.Fits) :
    (s.effect byte instruction).i ≤ 0xFFF := by
  cases instruction with
  | combine op x y =>
    obtain ⟨v, hv⟩ := s.exists_combine op x y
    simpa [effect, hv] using hs
  | loadIndex addr =>
    have : addr < 0x1000 := hfits
    change addr ≤ 0xFFF
    rw [UInt16.lt_iff_toNat_lt] at this
    rw [UInt16.le_iff_toNat_le]
    exact Nat.le_of_lt_succ this
  | addIndex x => exact advanceIndex_le s _
  | loadGlyph x => exact indexGlyph_le s _
  | storeRegisters x => exact advanceIndex_le _ _
  | loadRegisters x => exact advanceIndex_le _ _
  | _ => exact hs

/-! ## The call stack -/

/-- An instruction that can be performed leaves at most thirty-two subroutines open. -/
theorem State.depth_callsAfter_le {s : State} (hs : s.calls.depth ≤ 32)
    {instruction : Instruction Register} (hf : s.fault? instruction = none) :
    (s.callsAfter instruction).depth ≤ 32 := by
  rcases instruction.ret_or_call with rfl | ⟨addr, rfl⟩ | ⟨hr, hc⟩
  · exact (Nat.sub_le _ _).trans hs
  · have hd : ¬ 32 ≤ s.calls.depth := by
      intro hd
      simp [fault?, hd] at hf
    change s.calls.depth + 1 ≤ 32
    omega
  · rw [callsAfter_of_ne hr hc]
    exact hs

theorem State.depth_initial_le : initial.calls.depth ≤ 32 := by decide

theorem State.index_initial_le : initial.i ≤ 0xFFF := by decide

namespace Machine

/-- What holds of every machine that comes about. -/
structure Sound (m : Machine) : Prop where
  depth_le : m.state.calls.depth ≤ 32
  index_le : m.state.i ≤ 0xFFF
  wellPlaced : m.source.WellPlaced

theorem sound_new {source : ByteSource} (h : source.WellPlaced) : (new source).Sound :=
  ⟨State.depth_initial_le, State.index_initial_le, h⟩

theorem sound_performed {m : Machine} (h : m.Sound) (held : HeldKeys)
    {instruction : Instruction Register} (hfits : instruction.Fits)
    (hf : m.state.fault? instruction = none) : (m.performed held instruction).Sound where
  depth_le := State.depth_callsAfter_le h.depth_le hf
  index_le := State.index_effect_le h.index_le _ hfits
  wellPlaced := by
    unfold performed
    split
    · exact ByteSource.wellPlaced_advance h.wellPlaced
    · exact h.wellPlaced

theorem sound_execute {m : Machine} (h : m.Sound) (held : HeldKeys) (w : Word) :
    (m.execute held w).machine.Sound := by
  rcases m.execute_cases held w with same | ⟨instruction, hwait, hw, hf⟩
  · rwa [same]
  · rw [execute_of_runs hwait hw hf]
    exact sound_performed h held (Instruction.fits_of_ofWord? hw) hf

theorem sound_step {m : Machine} (h : m.Sound) (held : HeldKeys) : (m.step held).machine.Sound := by
  rcases m.step_cases held with same | ⟨instruction, hwait, hw, hf⟩
  · rwa [same]
  · rw [step_of_runs hwait hw hf]
    have hp := sound_performed h held (Instruction.fits_of_ofWord? hw) hf
    exact ⟨hp.depth_le, hp.index_le, hp.wellPlaced⟩

theorem sound_load {m : Machine} (h : m.Sound) (image : Array UInt8) :
    (m.load image).machine.Sound :=
  ⟨h.depth_le, h.index_le, h.wellPlaced⟩

theorem sound_read {m : Machine} (h : m.Sound) (outcomes : List ReadOutcome) :
    (m.read outcomes).machine.Sound := by
  unfold read
  split
  · exact sound_load h _
  · exact h

theorem sound_hear {m : Machine} (h : m.Sound) (key : UInt8) : (m.hear key).Sound := by
  have same : (m.hear key).state.calls = m.state.calls ∧ (m.hear key).state.i = m.state.i := by
    simp only [hear, State.hear]
    split <;> exact ⟨rfl, rfl⟩
  exact ⟨by rw [same.1]; exact h.depth_le, by rw [same.2]; exact h.index_le, h.wellPlaced⟩

theorem sound_takeFrame {m : Machine} (h : m.Sound) : m.takeFrame.2.Sound := by
  unfold takeFrame
  split
  · exact ⟨h.depth_le, h.index_le, h.wellPlaced⟩
  · exact h

/-- Every operation keeps the bounds, whatever its result. -/
theorem sound_operate {m : Machine} (h : m.Sound) (held : HeldKeys) (op : Op) :
    (m.operate held op).machine.Sound := by
  cases op with
  | load image => exact sound_load h image
  | read outcomes => exact sound_read h outcomes
  | execute w => exact sound_execute h held w
  | step => exact sound_step h held
  | tick => exact ⟨h.depth_le, h.index_le, h.wellPlaced⟩
  | hear key => exact sound_hear h key
  | reset => exact ⟨State.depth_initial_le, State.index_initial_le, h.wellPlaced⟩
  | takeFrame => exact sound_takeFrame h

/-! ## Reachable machines -/

/-- The machines that come about. Any keys may be down at each operation, and any ticket may be
    handed out by the keypad. -/
inductive Reachable : Machine → Prop where
  | new {source : ByteSource} (h : source.Obtainable) : Reachable (new source)
  | operate {m : Machine} (held : HeldKeys) (op : Op) (h : Reachable m) :
      Reachable (m.operate held op).machine
  | attach {m : Machine} (ticket : Ticket) (h : Reachable m) :
      Reachable { m with subscription := .active ticket }
  | detach {m : Machine} (h : Reachable m) : Reachable { m with subscription := .ended }

theorem Reachable.sound {m : Machine} (h : m.Reachable) : m.Sound := by
  induction h with
  | new h => exact sound_new h.wellPlaced
  | operate held op _ ih => exact sound_operate ih held op
  | attach _ _ ih => exact ⟨ih.depth_le, ih.index_le, ih.wellPlaced⟩
  | detach _ ih => exact ⟨ih.depth_le, ih.index_le, ih.wellPlaced⟩

theorem Reachable.run {m : Machine} (h : m.Reachable) (ops : List (HeldKeys × Op)) :
    (m.run ops).Reachable := by
  induction ops generalizing m with
  | nil => exact h
  | cons first rest ih => exact ih (h.operate first.1 first.2)

end Machine

end Chip8
