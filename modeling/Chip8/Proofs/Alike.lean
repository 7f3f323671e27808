import Chip8.Proofs.Trace

/-!
# What a program cannot see

Memory has twelve bits of address, the program counter sixteen; the sound timer, the mark that the
screen was drawn on and the slots of subroutines that are closed are never read by a program. Two
machines that differ in these things only, and draw the same random bytes, cannot be told apart by
operating them: they give the same results and go on differing in these things only.

* `SameCell`: addresses that agree in their low twelve bits.
* `State.Alike`: states that differ in what a program cannot see only.
* `Alike.effect`, `Alike.landing`, `Alike.callsAfter`: instructions keep states alike.
* `Machine.Alike`: machines with such states and the same random bytes.
* `outcomes_alike`: the main theorem.
-/

namespace Chip8

/-! ## Addresses -/

/-- Whether two addresses name the same cell of memory. -/
def SameCell (a b : UInt16) : Prop := a.toNat % 0x1000 = b.toNat % 0x1000
  deriving Decidable

namespace SameCell

variable {a b : UInt16}

theorem refl (a : UInt16) : SameCell a a := rfl

theorem add (h : SameCell a b) (count : UInt16) : SameCell (a + count) (b + count) := by
  unfold SameCell at *
  rw [UInt16.toNat_add, UInt16.toNat_add]
  omega

theorem sub (h : SameCell a b) (count : UInt16) : SameCell (a - count) (b - count) := by
  unfold SameCell at *
  have bound := count.toNat_lt
  rw [UInt16.toNat_sub, UInt16.toNat_sub]
  omega

theorem peek_eq (h : SameCell a b) (m : Memory) : m.peek a = m.peek b := by
  have cell_eq : Memory.cell a = Memory.cell b := Fin.ext h
  exact congrArg (m.cells[·]) cell_eq

/-- The word at an address is that of the cell. -/
theorem word_eq (h : SameCell a b) (m : Memory) : m.word a = m.word b := by
  unfold Memory.word
  rw [h.peek_eq, (h.add 1).peek_eq]

end SameCell

/-! ## States -/

namespace State

/-- States that differ in what a program cannot see only. -/
structure Alike (s t : State) : Prop where
  v : t.v = s.v
  i : t.i = s.i
  delay : t.delay = s.delay
  memory : t.memory = s.memory
  screen : t.screen = s.screen
  awaiting : t.awaiting = s.awaiting
  depth : t.calls.depth = s.calls.depth
  pc : SameCell s.pc t.pc
  /-- The return addresses of open subroutines name the same cells. -/
  live {k : ℕ} (h : k < s.calls.depth) :
    SameCell (s.calls.slots[k]?.getD 0) (t.calls.slots[k]?.getD 0)

variable {s t : State}

theorem Alike.refl (s : State) : s.Alike s :=
  ⟨rfl, rfl, rfl, rfl, rfl, rfl, rfl, .refl _, fun _ => .refl _⟩

/-- The one state with what cannot be seen taken from the other. -/
theorem Alike.eq (h : s.Alike t) :
    t = { s with pc := t.pc, calls := t.calls, sound := t.sound, redraw := t.redraw } := by
  obtain ⟨v, i, delay, memory, screen, awaiting, -, -, -⟩ := h
  cases t
  simp only at v i delay memory screen awaiting
  rw [v, i, delay, memory, screen, awaiting]

/-- Effects on data do not depend on what cannot be seen. -/
theorem effect_hidden (s : State) (pc : UInt16) (calls : CallStack) (sound : UInt8) (redraw : Bool)
    (byte : UInt8) (instruction : Instruction Register) :
    ∃ sound' redraw', ({ s with pc, calls, sound, redraw } : State).effect byte instruction =
      { s.effect byte instruction with pc, calls, sound := sound', redraw := redraw' } := by
  cases instruction with
  | combine op x y => cases op <;> exact ⟨_, _, rfl⟩
  | _ => exact ⟨_, _, rfl⟩

theorem Alike.of_hidden {pc pc' : UInt16} {calls calls' : CallStack} {sound : UInt8} {redraw : Bool}
    (hpc : SameCell pc pc') (hdepth : calls'.depth = calls.depth)
    (hlive : ∀ k < calls.depth, SameCell (calls.slots[k]?.getD 0) (calls'.slots[k]?.getD 0)) :
    Alike { s with pc, calls } { s with pc := pc', calls := calls', sound, redraw } :=
  ⟨rfl, rfl, rfl, rfl, rfl, rfl, hdepth, hpc, fun hk => hlive _ hk⟩

theorem Alike.isWaiting (h : s.Alike t) : t.isWaiting = s.isWaiting := by
  unfold State.isWaiting
  rw [h.awaiting]

theorem Alike.fetch (h : s.Alike t) : t.fetch = s.fetch := by
  unfold State.fetch
  rw [h.memory, h.pc.word_eq]

theorem Alike.fault? (h : s.Alike t) (instruction : Instruction Register) :
    t.fault? instruction = s.fault? instruction := by
  unfold State.fault?
  rw [h.depth]

theorem Alike.holds (h : s.Alike t) (held : HeldKeys) (test : Test Register) :
    test.holds t held = test.holds s held := by
  unfold Test.holds
  rw [h.v]

/-- Control goes to the same cell. -/
theorem Alike.landing (h : s.Alike t) (held : HeldKeys) {instruction : Instruction Register}
    (hf : s.fault? instruction = none) :
    SameCell (s.landing held instruction) (t.landing held instruction) := by
  cases instruction with
  | ret =>
    -- The slot that is read belongs to an open subroutine, because the return did not fail.
    have opened : s.calls.depth ≠ 0 := by
      intro hzero
      simp [State.fault?, hzero] at hf
    have back := h.live (show s.calls.depth - 1 < s.calls.depth by omega)
    simp only [State.landing, h.depth]
    exact back.add 2
  | jump addr => exact .refl addr
  | call addr => exact .refl addr
  | jumpOffset addr =>
    simp only [State.landing, h.v]
    exact .refl _
  | skip test =>
    simp only [State.landing, h.holds]
    split
    · exact h.pc.add 4
    · exact h.pc.add 2
  | _ => exact h.pc.add 2

/-- The same subroutines are open afterwards. -/
theorem Alike.callsAfter (h : s.Alike t) (instruction : Instruction Register) :
    (t.callsAfter instruction).depth = (s.callsAfter instruction).depth ∧
      ∀ k < (s.callsAfter instruction).depth,
        SameCell ((s.callsAfter instruction).slots[k]?.getD 0)
          ((t.callsAfter instruction).slots[k]?.getD 0) := by
  rcases instruction.ret_or_call with rfl | ⟨addr, rfl⟩ | ⟨hr, hc⟩
  · refine ⟨congrArg (· - 1) h.depth, fun k hk => h.live ?_⟩
    change k < s.calls.depth - 1 at hk
    omega
  · refine ⟨congrArg (· + 1) h.depth, fun k hk => ?_⟩
    change k < s.calls.depth + 1 at hk
    simp only [State.callsAfter, h.depth, Vector.getElem?_setIfInBounds]
    by_cases top : s.calls.depth = k
    · simp only [top, ↓reduceIte]
      split
      · exact h.pc
      · exact .refl 0
    · simp only [top, ↓reduceIte]
      exact h.live (by omega)
  · rw [callsAfter_of_ne hr hc, callsAfter_of_ne hr hc]
    exact ⟨h.depth, fun k hk => h.live hk⟩

/-- The effect of an instruction with control taken to the same cells. -/
theorem Alike.effect (h : s.Alike t) (byte : UInt8) (instruction : Instruction Register)
    {pc pc' : UInt16} {calls calls' : CallStack} (hpc : SameCell pc pc')
    (hdepth : calls'.depth = calls.depth)
    (hlive : ∀ k < calls.depth, SameCell (calls.slots[k]?.getD 0) (calls'.slots[k]?.getD 0)) :
    Alike { s.effect byte instruction with pc, calls }
      { t.effect byte instruction with pc := pc', calls := calls' } := by
  obtain ⟨sound, redraw, hidden⟩ :=
    s.effect_hidden t.pc t.calls t.sound t.redraw byte instruction
  rw [h.eq, hidden]
  exact .of_hidden hpc hdepth hlive

theorem Alike.load (h : s.Alike t) (image : Array UInt8) : (s.load image).Alike (t.load image) :=
  { h with memory := congrArg (·.withProgram image) h.memory, pc := .refl _ }

theorem Alike.moveOn (h : s.Alike t) : s.moveOn.Alike t.moveOn :=
  { h with pc := h.pc.add instructionSize }

theorem Alike.tick (h : s.Alike t) : s.tick.Alike t.tick :=
  { h with delay := congrArg countDown h.delay }

theorem Alike.hear (h : s.Alike t) (key : UInt8) : (s.hear key).Alike (t.hear key) := by
  unfold State.hear
  rw [h.awaiting]
  split
  · next x _ => exact { h with v := congrArg (·.set x key) h.v, awaiting := rfl }
  · exact h

end State

/-! ## Sources -/

/-- Sources that give the same bytes. -/
def ByteSource.SameBytes (s t : ByteSource) : Prop := ∀ count, s.take count = t.take count

theorem ByteSource.SameBytes.peek {s t : ByteSource} (h : s.SameBytes t) : s.peek = t.peek :=
  (List.cons_eq_cons.mp (h 1)).1

theorem ByteSource.SameBytes.advance {s t : ByteSource} (h : s.SameBytes t) :
    s.advance.SameBytes t.advance :=
  fun count => (List.cons_eq_cons.mp (h (count + 1))).2

/-! ## Machines -/

namespace Machine

/-- Machines that cannot be told apart: their states are alike, and they draw the same bytes. -/
structure Alike (m n : Machine) : Prop where
  state : m.state.Alike n.state
  bytes : m.source.SameBytes n.source

variable {m n : Machine} {held : HeldKeys} {w : Word} {instruction : Instruction Register}

theorem Alike.source (h : m.Alike n) (instruction : Instruction Register) :
    (if instruction.takesByte then m.source.advance else m.source).SameBytes
      (if instruction.takesByte then n.source.advance else n.source) := by
  split
  · exact h.bytes.advance
  · exact h.bytes

theorem Alike.performed (h : m.Alike n) (hf : m.state.fault? instruction = none) :
    (m.performed held instruction).Alike (n.performed held instruction) where
  state := by
    obtain ⟨depth, live⟩ := h.state.callsAfter instruction
    unfold Machine.performed
    rw [h.bytes.peek]
    exact h.state.effect _ instruction ((h.state.landing held hf).sub 2) depth live
  bytes := h.source instruction

/-- A word gives the same result, and performs the same instruction if it performs one. -/
theorem Alike.execute (h : m.Alike n) (held : HeldKeys) (w : Word) :
    (n.execute held w).result = (m.execute held w).result ∧
      (m.execute held w).machine.Alike (n.execute held w).machine := by
  cases m.verdict w with
  | waiting hwait =>
    have hwait' := h.state.isWaiting.trans hwait
    rw [execute_of_waiting hwait, execute_of_waiting hwait']
    exact ⟨rfl, h⟩
  | unknown hwait hw =>
    have hwait' := h.state.isWaiting.trans hwait
    rw [execute_of_unknown hwait hw, execute_of_unknown hwait' hw]
    exact ⟨rfl, h⟩
  | faulty hwait instruction fault hw hf =>
    have hwait' := h.state.isWaiting.trans hwait
    have hf' := (h.state.fault? instruction).trans hf
    rw [execute_of_fault hwait hw hf, execute_of_fault hwait' hw hf']
    exact ⟨rfl, h⟩
  | runs hwait instruction hw hf =>
    have hwait' := h.state.isWaiting.trans hwait
    have hf' := (h.state.fault? instruction).trans hf
    rw [execute_of_runs hwait hw hf, execute_of_runs hwait' hw hf']
    exact ⟨rfl, h.performed hf⟩

theorem Alike.step (h : m.Alike n) (held : HeldKeys) :
    (n.step held).result = (m.step held).result ∧
      (m.step held).machine.Alike (n.step held).machine := by
  obtain ⟨result, machine⟩ := h.execute held m.state.fetch
  unfold Machine.step
  rw [h.state.isWaiting, h.state.fetch]
  split
  · exact ⟨rfl, h⟩
  · simp only
    rw [result]
    cases (m.execute held m.state.fetch).result with
    | ok _ => exact ⟨rfl, machine.state.moveOn, machine.bytes⟩
    | error fault => exact ⟨result, machine⟩

theorem Alike.load (h : m.Alike n) (image : Array UInt8) :
    (m.load image).machine.Alike (n.load image).machine :=
  ⟨h.state.load image, h.bytes⟩

/-- An operation gives the same result and keeps machines alike, unless it asks for the frame. -/
theorem Alike.operate (h : m.Alike n) (held : HeldKeys) {op : Op} (hop : op ≠ .takeFrame) :
    (n.operate held op).result = (m.operate held op).result ∧
      (m.operate held op).machine.Alike (n.operate held op).machine := by
  cases op with
  | load image => exact ⟨rfl, h.load image⟩
  | read outcomes =>
    change (n.read outcomes).result.map _ = (m.read outcomes).result.map _ ∧
      (m.read outcomes).machine.Alike (n.read outcomes).machine
    unfold Machine.read
    split
    · next image _ => exact ⟨rfl, h.load image⟩
    · exact ⟨rfl, h⟩
  | execute w =>
    obtain ⟨result, machine⟩ := h.execute held w
    exact ⟨congrArg (Except.map _) result, machine⟩
  | step =>
    obtain ⟨result, machine⟩ := h.step held
    exact ⟨congrArg (Except.map _) result, machine⟩
  | tick => exact ⟨rfl, h.state.tick, h.bytes⟩
  | hear key => exact ⟨rfl, h.state.hear key, h.bytes⟩
  | reset => exact ⟨rfl, .refl _, h.bytes⟩
  | takeFrame => exact absurd rfl hop

theorem Alike.executed? (h : m.Alike n) (held : HeldKeys) (w : Word) :
    n.executed? held w = m.executed? held w := by
  unfold Machine.executed?
  rw [(h.execute held w).1]

/-- The same instructions are performed. -/
theorem Alike.instruction? (h : m.Alike n) (held : HeldKeys) (op : Op) :
    n.instruction? held op = m.instruction? held op := by
  cases op with
  | execute w => exact h.executed? held w
  | step =>
    simp only [Machine.instruction?]
    rw [h.state.isWaiting, h.state.fetch, h.executed? held]
  | _ => rfl

theorem Alike.trace (h : m.Alike n) {ops : List (HeldKeys × Op)}
    (hops : ∀ entry ∈ ops, entry.2 ≠ .takeFrame) : n.trace ops = m.trace ops := by
  induction ops generalizing m n with
  | nil => rfl
  | cons entry rest ih =>
    obtain ⟨held, op⟩ := entry
    obtain ⟨hop, hrest⟩ := List.forall_mem_cons.mp hops
    simp only [Machine.trace]
    rw [h.instruction? held op, ih (h.operate held hop).2 hrest]

theorem Alike.outcomes (h : m.Alike n) {ops : List (HeldKeys × Op)}
    (hops : ∀ entry ∈ ops, entry.2 ≠ .takeFrame) :
    List.Forall₂ (fun o p => p.result = o.result ∧ o.machine.Alike p.machine) (m.outcomes ops)
      (n.outcomes ops) := by
  induction ops generalizing m n with
  | nil => exact .nil
  | cons entry rest ih =>
    obtain ⟨hop, hrest⟩ := List.forall_mem_cons.mp hops
    have first := h.operate entry.1 hop
    exact .cons first (ih first.2 hrest)

/-- **Main theorem.** Machines that are alike stay so whatever is done to them, with the same
    results at every operation, and use up as many random bytes. They can differ in what the
    display and the buzzer take from them only. -/
theorem outcomes_alike (h : m.Alike n) {ops : List (HeldKeys × Op)}
    (hops : ∀ entry ∈ ops, entry.2 ≠ .takeFrame) :
    List.Forall₂ (fun o p => p.result = o.result ∧ o.machine.Alike p.machine) (m.outcomes ops)
        (n.outcomes ops) ∧
      n.bytesUsed ops = m.bytesUsed ops ∧
      (m.run ops).source = m.source.drop (m.bytesUsed ops) ∧
      (n.run ops).source = n.source.drop (n.bytesUsed ops) := by
  have used : n.bytesUsed ops = m.bytesUsed ops := by
    unfold bytesUsed
    rw [h.trace hops]
  exact ⟨h.outcomes hops, used, m.source_run ops, n.source_run ops⟩

/-- A machine in a subroutine that was called at `0x0FC`. -/
def calledLow : Machine :=
  (new (.ofBytes #[0x5A, 0xC3])).run [(.allUp, .execute 0x10FE), (.allUp, .execute 0x2300)]

/-- A machine in that subroutine which was called at `0x10FC`, with a tone sounding. -/
def calledHigh : Machine :=
  (new (.ofBytes #[0x5A, 0xC3])).run
    [(.allUp, .execute 0x60FF), (.allUp, .execute 0xF018), (.allUp, .execute 0xBFFF),
      (.allUp, .execute 0x2300), (.allUp, .execute 0x6000)]

theorem calledLow_alike : calledLow.Alike calledHigh where
  state :=
    { v := by decide
      i := by decide
      delay := by decide
      memory := rfl
      screen := rfl
      awaiting := by decide
      depth := by decide
      pc := by decide
      live := by
        intro k hk
        have depth : calledLow.state.calls.depth = 1 := by decide
        obtain rfl : k = 0 := by omega
        decide }
  bytes _ := rfl

/-- The return from the subroutine, an instruction behind it, and a random byte. -/
def returning : List (HeldKeys × Op) :=
  [(.allUp, .execute 0x00EE), (.allUp, .step), (.allUp, .execute 0xC0FF)]

/-- Both return to the same cell, though not to the same address, and draw the same byte there. -/
theorem outcomes_alike_of_called :
    calledLow.state.calls.live = [0x0FC] ∧ calledHigh.state.calls.live = [0x10FC] ∧
      List.Forall₂ (fun o p => p.result = o.result ∧ o.machine.Alike p.machine)
        (calledLow.outcomes returning) (calledHigh.outcomes returning) ∧
      calledHigh.bytesUsed returning = calledLow.bytesUsed returning ∧
      (calledLow.run returning).source =
        calledLow.source.drop (calledLow.bytesUsed returning) ∧
      (calledHigh.run returning).source =
        calledHigh.source.drop (calledHigh.bytesUsed returning) :=
  ⟨by decide, by decide, outcomes_alike calledLow_alike (by decide)⟩

end Machine

end Chip8
