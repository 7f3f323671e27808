import Chip8.Proofs.QuietActions
import Chip8.Proofs.Redraw
import Chip8.Proofs.Timers

/-!
# Footprints

Each instruction may write to a few places of the state, which its word and the registers tell
beforehand. It leaves all other places as they are.

* `Place`: the places of a state. There are no others (`State.ext_get`).
* `Instruction.Touches`: the places that an instruction may write to.
* `get_perform_of_not_touches`: it writes to no others.
* `memory_run`: without the two instructions that store, a run leaves memory alone.
* `footprints`: the main theorem.
-/

namespace Chip8

/-! ## Places -/

/-- The places of a state. -/
inductive Place where
  | register (x : Register)
  | index
  | pc
  /-- How many subroutines are open. -/
  | depth
  /-- A slot for a return address, whether its subroutine is open or not. -/
  | slot (k : Fin 32)
  | timer (timer : Timer)
  | cell (a : Fin 4096)
  | screen
  /-- The mark that the screen was drawn on. -/
  | redraw
  /-- The register that waits for a key, if one does. -/
  | awaiting

/-- What a place can hold. -/
def Place.Content : Place → Type
  | register _ | timer _ | cell _ => UInt8
  | index | pc | slot _ => UInt16
  | depth => ℕ
  | screen => Screen
  | redraw => Bool
  | awaiting => Option Register

/-- What a place holds. -/
def State.get (s : State) : (place : Place) → place.Content
  | .register x => s.v.get x
  | .index => s.i
  | .pc => s.pc
  | .depth => s.calls.depth
  | .slot k => s.calls.slots.get k
  | .timer timer => timer.read s
  | .cell a => s.memory.cells.get a
  | .screen => s.screen
  | .redraw => s.redraw
  | .awaiting => s.awaiting

/-- States that hold the same at every place are the same. -/
theorem State.ext_get {s t : State} (h : ∀ place, s.get place = t.get place) : s = t := by
  have registers : s.v = t.v := Vector.ext fun k hk => h (.register ⟨k, hk⟩)
  have slots : s.calls.slots = t.calls.slots := Vector.ext fun k hk => h (.slot ⟨k, hk⟩)
  have memory : s.memory = t.memory := Memory.ext_get fun a => h (.cell a)
  have calls : s.calls = t.calls := by
    show CallStack.mk s.calls.slots s.calls.depth = CallStack.mk t.calls.slots t.calls.depth
    rw [slots, show s.calls.depth = t.calls.depth from h .depth]
  cases s
  cases t
  rw [State.mk.injEq]
  exact ⟨registers, h .index, h .pc, calls, h (.timer .delay), h (.timer .sound), memory, h .screen,
    h .redraw, h .awaiting⟩

/-! ## What an instruction may write to -/

/-- The places that an instruction may write to, performed in a state while `held` are the keys that
    are down. -/
def Instruction.Touches (instruction : Instruction Register) (s : State) (held : HeldKeys) :
    Place → Prop
  | .register z => match instruction with
    | .loadByte x _ | .addByte x _ | .random x _ | .loadDelay x => z = x
    | .combine .move x _ | .combine .or x _ | .combine .and x _ | .combine .xor x _ => z = x
    | .combine .add x _ | .combine .sub x _ | .combine .subFrom x _ => z = x ∨ z = flagRegister
    | .shiftRight x | .shiftLeft x => z = x ∨ z = flagRegister
    | .draw _ _ _ => z = flagRegister
    | .loadRegisters x => z ≤ x
    | _ => False
  | .index => match instruction with
    | .loadIndex _ | .addIndex _ | .loadGlyph _ | .storeRegisters _ | .loadRegisters _ => True
    | _ => False
  | .pc => match instruction with
    | .ret | .jump _ | .call _ | .jumpOffset _ => True
    | .skip test => test.holds s held = true
    | _ => False
  | .depth => match instruction with
    | .ret | .call _ => True
    | _ => False
  | .slot k => match instruction with
    | .call _ => k.val = s.calls.depth
    | _ => False
  | .timer timer => timer.setFrom? instruction ≠ none
  | .cell a => match instruction with
    | .storeDecimal _ => ∃ k < 3, a = Memory.cellFrom s.i k
    | .storeRegisters x => ∃ k ≤ x.val, a = Memory.cellFrom s.i k
    | _ => False
  | .screen | .redraw => instruction.draws = true
  | .awaiting => match instruction with
    | .awaitKey _ => True
    | _ => False

namespace State

variable {s t : State} {held : HeldKeys} {byte : UInt8} {instruction : Instruction Register}

theorem get_setV_of_ne {x z : Register} {value : UInt8} (h : z ≠ x) :
    (s.setV x value).v.get z = s.v.get z :=
  (s.get_setV x z value).trans (if_neg h.symm)

theorem get_setFlag_of_ne {z : Register} {value : UInt8} (h : z ≠ flagRegister) :
    (s.setFlag value).v.get z = s.v.get z :=
  get_setV_of_ne h

theorem register_effect {z : Register} (h : ¬instruction.Touches s held (.register z)) :
    (s.effect byte instruction).v.get z = s.v.get z := by
  cases instruction with
  | loadByte x kk | addByte x kk | random x kk | loadDelay x => exact get_setV_of_ne h
  | combine op x y =>
    cases op with
    | move | or | and | xor => exact get_setV_of_ne h
    | add | sub | subFrom =>
      obtain ⟨hx, hflag⟩ := not_or.mp h
      exact (get_setFlag_of_ne hflag).trans (get_setV_of_ne hx)
  | shiftRight x | shiftLeft x =>
    obtain ⟨hx, hflag⟩ := not_or.mp h
    exact (get_setFlag_of_ne hflag).trans (get_setV_of_ne hx)
  | draw x y n => exact get_setFlag_of_ne h
  | loadRegisters x =>
    have above : ¬z ≤ x := h
    refine (Vector.getElem_ofFn z.isLt).trans ?_
    rw [if_neg above]
  | _ => rfl

theorem index_effect (h : ¬instruction.Touches s held .index) :
    (s.effect byte instruction).i = s.i := by
  cases instruction with
  | combine op x y =>
    obtain ⟨v, hv⟩ := s.exists_combine op x y
    simp [effect, hv]
  | loadIndex addr | addIndex x | loadGlyph x | storeRegisters x | loadRegisters x =>
    exact absurd trivial h
  | _ => rfl

theorem cell_effect {a : Fin 4096} (h : ¬instruction.Touches s held (.cell a)) :
    (s.effect byte instruction).memory.cells.get a = s.memory.cells.get a := by
  cases instruction with
  | combine op x y =>
    obtain ⟨v, hv⟩ := s.exists_combine op x y
    simp [effect, hv]
  | storeDecimal x =>
    exact Memory.get_store_of_ne fun k hk same => h ⟨k, hk, same⟩
  | storeRegisters x =>
    refine Memory.get_store_of_ne fun k hk same => h ⟨k, ?_, same⟩
    rw [List.length_take] at hk
    omega
  | loadRegisters x => rfl
  | _ => rfl

theorem timer_effect {timer : Timer} (h : ¬instruction.Touches s held (.timer timer)) :
    timer.read (s.effect byte instruction) = timer.read s := by
  rw [Timer.read_effect, not_not.mp h]

theorem landing_of_not_touches (h : ¬instruction.Touches s held .pc) :
    s.landing held instruction - 2 = s.pc := by
  have next : s.pc + 2 - 2 = s.pc := UInt16.add_sub_cancel _ _
  cases instruction with
  | ret | jump addr | call addr | jumpOffset addr => exact absurd trivial h
  | skip test =>
    have fails : ¬test.holds s held = true := h
    rw [landing, if_neg fails, next]
  | _ => exact next

theorem depth_callsAfter (h : ¬instruction.Touches s held .depth) :
    (s.callsAfter instruction).depth = s.calls.depth := by
  cases instruction with
  | ret | call addr => exact absurd trivial h
  | _ => rfl

theorem slot_callsAfter {k : Fin 32} (h : ¬instruction.Touches s held (.slot k)) :
    (s.callsAfter instruction).slots.get k = s.calls.slots.get k := by
  cases instruction with
  | call addr =>
    have other : ¬s.calls.depth = k.val := fun same => h same.symm
    show (s.calls.slots.setIfInBounds s.calls.depth s.pc)[k.val] = s.calls.slots[k.val]
    rw [Vector.getElem_setIfInBounds, if_neg other]
  | _ => rfl

theorem awaiting_effect_of_not_touches (h : ¬instruction.Touches s held .awaiting) :
    (s.effect byte instruction).awaiting = s.awaiting := by
  rw [awaiting_effect]
  cases instruction with
  | awaitKey x => exact absurd trivial h
  | _ => rfl

/-- What there is after an instruction that is performed. -/
theorem perform_eq_ok_iff : s.perform held byte instruction = .ok t ↔
    s.fault? instruction = none ∧ t = { s.effect byte instruction with
      pc := s.landing held instruction - 2, calls := s.callsAfter instruction } := by
  rw [perform_eq]
  cases s.fault? instruction with
  | some fault => simp
  | none => simp [eq_comm]

/-- An instruction that is performed leaves alone what it does not touch. -/
theorem get_perform_of_not_touches (h : s.perform held byte instruction = .ok t) {place : Place}
    (untouched : ¬instruction.Touches s held place) : t.get place = s.get place := by
  obtain ⟨-, rfl⟩ := perform_eq_ok_iff.mp h
  cases place with
  | register z => exact register_effect untouched
  | index => exact index_effect untouched
  | pc => exact landing_of_not_touches untouched
  | depth => exact depth_callsAfter untouched
  | slot k => exact slot_callsAfter untouched
  | timer timer =>
    cases timer with
    | delay => exact timer_effect untouched
    | sound => exact timer_effect untouched
  | cell a => exact cell_effect untouched
  | screen => exact (screen_effect (Bool.eq_false_iff.mpr untouched)).1
  | redraw => exact (screen_effect (Bool.eq_false_iff.mpr untouched)).2
  | awaiting => exact awaiting_effect_of_not_touches untouched

/-- The mark stays where it is, and comes where something is drawn. -/
theorem redraw_effect_eq (s : State) (byte : UInt8) (instruction : Instruction Register) :
    (s.effect byte instruction).redraw = (s.redraw || instruction.draws) := by
  cases hd : instruction.draws with
  | true => rw [redraw_effect hd, Bool.or_true]
  | false => rw [(screen_effect hd).2, Bool.or_false]

end State

/-! ## Runs that store nothing -/

/-- Whether the instruction stores bytes in memory. -/
def Instruction.stores {ρ : Type} : Instruction ρ → Bool
  | storeDecimal _ | storeRegisters _ => true
  | _ => false

theorem State.memory_effect {instruction : Instruction Register} (h : instruction.stores = false)
    (s : State) (byte : UInt8) : (s.effect byte instruction).memory = s.memory := by
  have untouched (a : Fin 4096) : ¬instruction.Touches s .allUp (.cell a) := by
    intro touched
    cases instruction with
    | storeDecimal x | storeRegisters x => cases h
    | _ => exact touched
  exact Memory.ext_get fun a => cell_effect (untouched a)

namespace Machine

variable {m : Machine} {held : HeldKeys} {w : Word} {op : Op} {ops : List (HeldKeys × Op)}
  {instruction : Instruction Register}

/-- Left to its program, a machine writes to memory only by the instructions that store. -/
theorem memory_operate (hop : op.IsRunning)
    (h : ∀ instruction ∈ m.instruction? held op, instruction.stores = false) :
    (m.operate held op).machine.state.memory = m.state.memory := by
  cases hi : m.instruction? held op with
  | some instruction =>
    obtain ⟨pc, calls, after⟩ := exists_of_instruction? hi
    rw [after]
    exact State.memory_effect (h instruction hi) m.state m.source.peek
  | none =>
    cases op with
    | step =>
      have same : (m.step held).machine = m := machine_step_of_no_instruction hi
      exact congrArg (fun after => after.state.memory) same
    | tick => rfl
    | hear key =>
      show (m.state.hear key).memory = m.state.memory
      unfold State.hear
      split
      · rfl
      · rfl
    | takeFrame =>
      show m.takeFrame.2.state.memory = m.state.memory
      unfold takeFrame
      split
      · rfl
      · rfl
    | load image | read outcomes | execute w | reset => cases hop

/-- Without an instruction that stores, a program keeps all of memory, and so itself. -/
theorem memory_run (hops : Running ops)
    (h : ∀ instruction ∈ m.trace ops, instruction.stores = false) :
    (m.run ops).state.memory = m.state.memory := by
  induction ops generalizing m with
  | nil => rfl
  | cons entry rest ih =>
    obtain ⟨held, op⟩ := entry
    obtain ⟨hop, hrest⟩ := hops.of_cons
    obtain ⟨first, later⟩ := forall_trace_cons.mp h
    rw [run_cons, ih hrest later, memory_operate hop first]

/-! ## Machines and boards -/

theorem executed?_of_ok (hw : Instruction.ofWord? w = some instruction)
    (h : (m.execute held w).result = .ok ()) : m.executed? held w = some instruction := by
  unfold executed?
  rw [h]
  exact hw

theorem perform_of_executed? (h : m.executed? held w = some instruction) :
    m.state.perform held m.source.peek instruction = .ok (m.execute held w).machine.state := by
  obtain ⟨-, -, hf⟩ := executed?_eq_some_iff.mp h
  rw [machine_execute_of_executed? h]
  exact State.perform_eq_ok_iff.mpr ⟨hf, rfl⟩

end Machine

namespace Board

/-- To operate a machine changes nothing on the board but the machine and the journal. -/
theorem operate_keeps (b : Board) (slot : Slot) (op : Machine.Op) :
    (b.operate slot op).2.held = b.held ∧ (b.operate slot op).2.registry = b.registry ∧
      ∀ other ≠ slot, (b.operate slot op).2.outlet? other = b.outlet? other := by
  unfold operate withMachine
  split
  · split
    · exact ⟨rfl, rfl, fun _ _ => rfl⟩
    · next m _ _ =>
      obtain ⟨history, hreport⟩ := exists_report (b.setMachine slot (m.operate b.held op).machine)
        (m.operate b.held op).entries
      simp only [hreport]
      exact ⟨rfl, rfl, fun other hne => outlet?_modify_of_ne hne.symm _⟩
  · exact ⟨rfl, rfl, fun _ _ => rfl⟩

end Board

namespace Machine

/-- **Main theorem.** A word that is executed with success changes nothing but the places that its
    instruction touches. It marks the screen just if it draws, and takes no mark away; it draws from
    the random source just if it takes a byte, and never changes the subscription. No operation on a
    machine changes which keys are down, who is registered, or any other device. So a machine that
    is left to its program and performs neither of the instructions that store keeps all of its
    memory. -/
theorem footprints :
    (∀ (m : Machine) (held : HeldKeys) (w : Word) (instruction : Instruction Register),
      Instruction.ofWord? w = some instruction → (m.execute held w).result = .ok () →
        let after := (m.execute held w).machine
        (∀ place, ¬instruction.Touches m.state held place →
          after.state.get place = m.state.get place) ∧
        after.state.redraw = (m.state.redraw || instruction.draws) ∧
        after.source = (if instruction.takesByte then m.source.advance else m.source) ∧
        after.subscription = m.subscription) ∧
    (∀ s t : State, (∀ place, s.get place = t.get place) → s = t) ∧
    (∀ (b : Board) (slot : Slot) (w : Word),
      let after := (b.operate slot (.execute w)).2
      after.held = b.held ∧ after.registry = b.registry ∧
        ∀ other ≠ slot, after.outlet? other = b.outlet? other) ∧
    ∀ (m : Machine) (ops : List (HeldKeys × Op)), Running ops →
      (∀ instruction ∈ m.trace ops, instruction.stores = false) →
        (m.run ops).state.memory = m.state.memory := by
  refine ⟨?_, fun _ _ => State.ext_get, fun b slot w => b.operate_keeps slot (.execute w),
    fun m ops => memory_run⟩
  intro m held w instruction hw hresult after
  have executed := executed?_of_ok hw hresult
  have after_eq : after = m.performed held instruction := machine_execute_of_executed? executed
  refine ⟨fun place => State.get_perform_of_not_touches (perform_of_executed? executed), ?_, ?_, ?_⟩
  · rw [after_eq]
    exact m.state.redraw_effect_eq m.source.peek instruction
  · rw [after_eq]
    rfl
  · rw [after_eq]
    rfl

/-- Three digits are stored at the end of memory and round it, and leave the next cell alone. A
    program of one instruction, which stores nothing, keeps all of memory. -/
theorem footprints_of_wrapped_digits :
    let m := (new (.ofBytes #[])).run [(.allUp, .execute 0xAFFF), (.allUp, .load #[0x60, 0x05])]
    let ops : List (HeldKeys × Op) := [(.allUp, .step), (.allUp, .tick)]
    Instruction.ofWord? 0xF033 = some (.storeDecimal 0) ∧
      (m.execute .allUp 0xF033).result = .ok () ∧
      (Instruction.storeDecimal 0).Touches m.state .allUp (.cell 1) ∧
      ¬(Instruction.storeDecimal 0).Touches m.state .allUp (.cell 2) ∧
      (m.execute .allUp 0xF033).machine.state.get (.cell 2) = m.state.get (.cell 2) ∧
      Running ops ∧ m.trace ops = [.loadByte 0 5] ∧ (m.run ops).state.memory = m.state.memory := by
  intro m ops
  have index : m.state.i = 0xFFF := by decide
  have decoded : Instruction.ofWord? 0xF033 = some (.storeDecimal 0) := by decide
  have executed : (m.execute .allUp 0xF033).result = .ok () := by
    rw [execute_of_runs rfl decoded rfl]
  have touched : (Instruction.storeDecimal 0).Touches m.state .allUp (.cell 1) :=
    ⟨2, by decide, by rw [index]; decide⟩
  have untouched : ¬(Instruction.storeDecimal 0).Touches m.state .allUp (.cell 2) := by
    rintro ⟨k, hk, same⟩
    rw [index] at same
    revert k
    decide
  have running : Running ops := by
    simp [Running, ops, Op.IsRunning]
  have fetch_eq : m.state.fetch = 0x6005 := by
    have left : m.state.memory.peek 0x200 = 0x60 := Vector.getElem_ofFn _
    have right : m.state.memory.peek 0x201 = 0x05 := Vector.getElem_ofFn _
    exact Memory.word_of_peek left right
  have performed : m.instruction? .allUp .step = some (.loadByte 0 5) := by
    rw [instruction?_step_eq_some_iff, fetch_eq]
    exact ⟨rfl, by decide, rfl⟩
  have trace_eq : m.trace ops = [.loadByte 0 5] := by
    show (m.instruction? .allUp .step).toList ++ [] = _
    rw [performed]
    rfl
  obtain ⟨frame, -, -, memory_kept⟩ := footprints
  refine ⟨decoded, executed, touched, untouched, (frame m _ _ _ decoded executed).1 _ untouched,
    running, trace_eq, memory_kept m ops running ?_⟩
  rw [trace_eq]
  decide

end Machine

end Chip8
