import Chip8.Proofs.Devices

/-!
# Faults

When an operation fails, with which fault, and what a failure leaves behind.

* `Machine.failure?`: the fault of a word, the first of four reasons that applies.
* `result_execute`: a word is executed unless it has a fault.
* `machine_execute_of_error`, `machine_step_of_error`, `Board.operate_of_error`: a failure changes
  neither the machine nor the board around it.
* `Machine.Stuck`: a machine whose next instruction has a fault, and `stuck_run`: nothing but a
  new program or a new start gets it going again.
-/

namespace Chip8

/-- The faults of instructions: a return outside any subroutine, and a call too many. -/
theorem State.fault?_cases {s : State} {instruction : Instruction Register} {fault : Fault}
    (h : s.fault? instruction = some fault) :
    (instruction = .ret ∧ s.calls.depth = 0 ∧ fault = .stackUnderflow) ∨
      ∃ addr, instruction = .call addr ∧ 32 ≤ s.calls.depth ∧ fault = .stackOverflow 32 := by
  rcases instruction.ret_or_call with rfl | ⟨addr, rfl⟩ | ⟨hr, hc⟩
  · left
    by_cases empty : s.calls.depth = 0
    · simp only [fault?, empty, ↓reduceIte, Option.some.injEq] at h
      exact ⟨rfl, empty, h.symm⟩
    · simp [fault?, empty] at h
  · right
    by_cases full : 32 ≤ s.calls.depth
    · simp only [fault?, full, ↓reduceIte, Option.some.injEq] at h
      exact ⟨addr, rfl, full, h.symm⟩
    · simp [fault?, full] at h
  · rw [fault?_of_ne hr hc] at h
    cases h

namespace Machine

variable {m : Machine} {held : HeldKeys} {w : Word} {fault : Fault}

/-! ## Which fault -/

/-- The fault of a word: the machine waits for a key, or the word is no instruction, or it returns
    outside any subroutine, or it calls with thirty-two of them open. -/
def failure? (m : Machine) (w : Word) : Option Fault :=
  if m.state.isWaiting then some .blocked
  else if Instruction.ofWord? w = none then some (.unknownInstruction w)
  else if w = 0x00EE ∧ m.state.calls.depth = 0 then some .stackUnderflow
  else if Word.family w = 2 ∧ m.state.calls.depth = 32 then some (.stackOverflow 32)
  else none

/-- A word is executed unless it has a fault. -/
theorem result_execute (hd : m.state.calls.depth ≤ 32) (held : HeldKeys) (w : Word) :
    (m.execute held w).result = (m.failure? w).elim (.ok ()) .error := by
  cases m.verdict w with
  | waiting hwait => simp [execute_of_waiting hwait, failure?, hwait]
  | unknown hwait hw => simp [execute_of_unknown hwait hw, failure?, hwait, hw]
  | faulty hwait instruction fault hw hf =>
    rw [execute_of_fault hwait hw hf]
    rcases State.fault?_cases hf with ⟨rfl, empty, rfl⟩ | ⟨addr, rfl, full, rfl⟩
    · have hret := Instruction.ofWord?_eq_ret_iff.mp hw
      subst hret
      simp [failure?, hwait, hw, empty]
    · obtain ⟨hfamily, -⟩ := Instruction.ofWord?_eq_call_iff.mp hw
      have hdepth : m.state.calls.depth = 32 := by omega
      have hne : w ≠ 0x00EE := Word.ne_ret (by omega)
      simp [failure?, hwait, hw, hne, hfamily, hdepth]
  | runs hwait instruction hw hf =>
    rw [execute_of_runs hwait hw hf]
    have no_underflow : ¬ (w = 0x00EE ∧ m.state.calls.depth = 0) := by
      rintro ⟨hret, empty⟩
      rw [Instruction.ofWord?_eq_ret_iff.mpr hret, Option.some.injEq] at hw
      simp [← hw, State.fault?, empty] at hf
    have no_overflow : ¬ (Word.family w = 2 ∧ m.state.calls.depth = 32) := by
      rintro ⟨hfamily, full⟩
      rw [Instruction.ofWord?_eq_call_iff.mpr ⟨hfamily, rfl⟩, Option.some.injEq] at hw
      simp [← hw, State.fault?, full] at hf
    simp [failure?, hwait, hw, no_underflow, no_overflow]

theorem failure?_eq_blocked_iff : m.failure? w = some .blocked ↔ m.state.isWaiting = true := by
  unfold failure?
  grind

theorem failure?_eq_unknown_iff {v : Word} :
    m.failure? w = some (.unknownInstruction v) ↔
      m.state.isWaiting = false ∧ Instruction.ofWord? w = none ∧ v = w := by
  unfold failure?
  grind

theorem failure?_eq_underflow_iff :
    m.failure? w = some .stackUnderflow ↔
      m.state.isWaiting = false ∧ w = 0x00EE ∧ m.state.calls.depth = 0 := by
  have decodes : Instruction.ofWord? w = some .ret ↔ w = 0x00EE := Instruction.ofWord?_eq_ret_iff
  unfold failure?
  grind

theorem failure?_eq_overflow_iff {depth : ℕ} :
    m.failure? w = some (.stackOverflow depth) ↔
      m.state.isWaiting = false ∧ Word.family w = 2 ∧ m.state.calls.depth = 32 ∧ depth = 32 := by
  have decodes : Word.family w = 2 → Instruction.ofWord? w ≠ none := by
    intro hfamily
    simp [Instruction.ofWord?_eq_call_iff.mpr ⟨hfamily, rfl⟩]
  unfold failure?
  grind

theorem failure?_eq_none_iff :
    m.failure? w = none ↔
      m.state.isWaiting = false ∧ Instruction.ofWord? w ≠ none ∧
        ¬ (w = 0x00EE ∧ m.state.calls.depth = 0) ∧
        ¬ (Word.family w = 2 ∧ m.state.calls.depth = 32) := by
  unfold failure?
  grind

/-- A call has a fault when thirty-two subroutines are open, and a return when none is. -/
theorem failure?_of_call {target : UInt16} (hwait : m.state.isWaiting = false)
    (hw : Instruction.ofWord? w = some (.call target)) :
    m.failure? w = some fault ↔ m.state.calls.depth = 32 ∧ fault = .stackOverflow 32 := by
  have hfamily := (Instruction.ofWord?_eq_call_iff.mp hw).1
  have hne : w ≠ 0x00EE := Word.ne_ret (by omega)
  unfold failure?
  grind

theorem failure?_of_ret (hwait : m.state.isWaiting = false)
    (hw : Instruction.ofWord? w = some .ret) :
    m.failure? w = some fault ↔ m.state.calls.depth = 0 ∧ fault = .stackUnderflow := by
  have hret := Instruction.ofWord?_eq_ret_iff.mp hw
  have hne : Word.family w ≠ 2 := by
    rw [hret]
    decide
  unfold failure?
  grind

theorem execute_eq_error_iff (hd : m.state.calls.depth ≤ 32) :
    (m.execute held w).result = .error fault ↔ m.failure? w = some fault := by
  rw [result_execute hd]
  cases m.failure? w <;> simp

theorem execute_eq_ok_iff (hd : m.state.calls.depth ≤ 32) :
    (m.execute held w).result = .ok () ↔ m.failure? w = none := by
  rw [result_execute hd]
  cases m.failure? w <;> simp

/-! ## What a failure leaves behind -/

theorem machine_execute_of_error (h : (m.execute held w).result = .error fault) :
    (m.execute held w).machine = m := by
  rcases m.execute_cases held w with same | ⟨instruction, hwait, hw, hf⟩
  · exact same
  · rw [execute_of_runs hwait hw hf] at h
    cases h

theorem step_error_iff :
    (m.step held).result = .error fault ↔
      m.state.isWaiting = false ∧ (m.execute held m.state.fetch).result = .error fault := by
  unfold step
  cases m.state.isWaiting with
  | true => simp
  | false => cases result : (m.execute held m.state.fetch).result <;> simp [result]

theorem machine_step_of_error (h : (m.step held).result = .error fault) :
    (m.step held).machine = m := by
  obtain ⟨hwait, hexec⟩ := step_error_iff.mp h
  unfold step
  simp [hwait, hexec, machine_execute_of_error hexec]

/-- A step is never refused for waiting: a machine that waits stands still. -/
theorem step_ne_blocked : (m.step held).result ≠ .error .blocked := by
  intro h
  obtain ⟨hwait, hexec⟩ := step_error_iff.mp h
  cases m.verdict m.state.fetch with
  | waiting hwait' => rw [hwait] at hwait'; cases hwait'
  | unknown _ hw => simp [execute_of_unknown hwait hw] at hexec
  | faulty _ instruction fault hw hf =>
    rw [execute_of_fault hwait hw hf] at hexec
    cases hexec
    rcases State.fault?_cases hf with ⟨-, -, hfault⟩ | ⟨addr, -, -, hfault⟩ <;> cases hfault
  | runs _ instruction hw hf => simp [execute_of_runs hwait hw hf] at hexec

theorem machine_operate_of_error {op : Op} (hop : op = .step ∨ ∃ w, op = .execute w)
    (h : (m.operate held op).result = .error fault) : (m.operate held op).machine = m := by
  rcases hop with rfl | ⟨w, rfl⟩
  · have hstep : (m.step held).result = .error fault := by
      cases result : (m.step held).result <;> simp_all [operate, Outcome.map, Except.map]
    exact machine_step_of_error hstep
  · have hexec : (m.execute held w).result = .error fault := by
      cases result : (m.execute held w).result <;> simp_all [operate, Outcome.map, Except.map]
    exact machine_execute_of_error hexec

/-! ## Stuck machines -/

/-- A machine whose next instruction has a fault, whichever keys are down. -/
def Stuck (m : Machine) (fault : Fault) : Prop := ∀ held, (m.step held).result = .error fault

/-- The operations that load no program, start nothing anew and execute no word with success. -/
def Futile (m : Machine) (held : HeldKeys) : Op → Prop
  | .step | .tick | .hear _ | .takeFrame => True
  | .execute w => ∃ fault, (m.execute held w).result = .error fault
  | .load _ | .read _ | .reset => False

/-- A run of such operations. -/
def FutileRun (m : Machine) : List (HeldKeys × Op) → Prop
  | [] => True
  | (held, op) :: rest => m.Futile held op ∧ (m.operate held op).machine.FutileRun rest

/-- A fault of a step depends on no key, and on the waiting register, the next word and the depth
    of the call stack only. -/
theorem step_error_congr {n : Machine} {held' : HeldKeys}
    (h : (m.step held).result = .error fault) (hwait : n.state.awaiting = m.state.awaiting)
    (hfetch : n.state.fetch = m.state.fetch) (hdepth : n.state.calls.depth = m.state.calls.depth) :
    (n.step held').result = .error fault := by
  have hwaiting : n.state.isWaiting = m.state.isWaiting := by
    unfold State.isWaiting
    rw [hwait]
  have hfault (instruction) : n.state.fault? instruction = m.state.fault? instruction := by
    cases instruction <;> simp only [State.fault?, hdepth]
  cases m.verdict m.state.fetch with
  | waiting hw => rw [step_of_waiting hw] at h; cases h
  | unknown hw hnone =>
    rw [step_of_unknown hw hnone] at h
    rw [step_of_unknown (hwaiting.trans hw) (hfetch ▸ hnone), hfetch]
    exact h
  | faulty hw instruction fault hsome hf =>
    rw [step_of_fault hw hsome hf] at h
    rw [step_of_fault (hwaiting.trans hw) (hfetch ▸ hsome) ((hfault instruction).trans hf)]
    exact h
  | runs hw instruction hsome hf => rw [step_of_runs hw hsome hf] at h; cases h

theorem stuck_of_step_error (h : (m.step held).result = .error fault) : m.Stuck fault :=
  fun _ => step_error_congr h rfl rfl rfl

/-- A stuck machine stays stuck. -/
theorem stuck_operate (h : m.Stuck fault) {op : Op} (hop : m.Futile held op) :
    (m.operate held op).machine.Stuck fault := by
  have hfail := h held
  cases op with
  | load image => cases hop
  | read outcomes => cases hop
  | reset => cases hop
  | execute w =>
    obtain ⟨other, hother⟩ := hop
    change (m.execute held w).machine.Stuck fault
    rw [machine_execute_of_error hother]
    exact h
  | step =>
    change (m.step held).machine.Stuck fault
    rw [machine_step_of_error hfail]
    exact h
  | tick =>
    intro other
    exact step_error_congr hfail rfl rfl rfl
  | hear key =>
    have hnone : m.state.awaiting = none := by
      simpa [State.isWaiting] using (step_error_iff.mp hfail).1
    have hsame : m.state.hear key = m.state := by simp [State.hear, hnone]
    change Stuck { m with state := m.state.hear key } fault
    rw [hsame]
    exact h
  | takeFrame =>
    change m.takeFrame.2.Stuck fault
    unfold takeFrame
    split
    · intro other
      exact step_error_congr hfail rfl rfl rfl
    · exact h

/-- Nothing but a new program, a new start or a word from outside helps a stuck machine on. -/
theorem stuck_run (h : m.Stuck fault) (ops : List (HeldKeys × Op)) (hops : m.FutileRun ops) :
    (m.run ops).Stuck fault := by
  induction ops generalizing m with
  | nil => exact h
  | cons first rest ih => exact ih (stuck_operate h hops.1) hops.2

end Machine

/-! ## The board around a failed machine -/

namespace Board

theorem setMachine_self {b : Board} {slot : Slot} {m : Machine} (h : b.machine? slot = some m) :
    b.setMachine slot m = b := by
  obtain ⟨o, ho, machine_eq⟩ := Option.map_eq_some_iff.mp (device?_of_machine? h)
  have same : b.outlets.modify slot (fun o => { o with device := .machine m }) = b.outlets := by
    apply List.ext_getElem?
    intro k
    rw [List.getElem?_modify]
    by_cases hk : slot = k
    · subst hk
      have hslot : b.outlets[slot]? = some o := ho
      simp [hslot, ← machine_eq]
    · simp [hk]
  unfold setMachine modify
  rw [same]

/-- A machine that fails to execute a word leaves the keypad and every device as they were; only
    the journal tells of it. -/
theorem operate_of_error {b after : Board} {slot : Slot} {op : Machine.Op} {fault : Fault}
    (hop : op = .step ∨ ∃ w, op = .execute w)
    (h : b.operate slot op = (.gain (.error fault), after)) :
    { after with history := b.history } = b := by
  unfold operate withMachine at h
  cases hm : b.machine? slot with
  | none => simp [hm] at h
  | some m =>
    by_cases hbusy : b.isBusy slot
    · simp [hm, hbusy] at h
    · simp only [hm, hbusy, Bool.false_eq_true, ↓reduceIte, Prod.mk.injEq, Answer.gain.injEq] at h
      obtain ⟨hresult, rfl⟩ := h
      rw [Machine.machine_operate_of_error hop hresult, setMachine_self hm]
      obtain ⟨history, hreport⟩ := b.exists_report (m.operate b.held op).entries
      rw [hreport]

end Board

namespace Machine

/-- **Main theorem.** A word is executed unless it has one of four faults, which exclude each other;
    a failed execution or step changes nothing; and a step that fails once fails for good. -/
theorem faults_exact {m : Machine} (h : m.Reachable) :
    (∀ held w,
      ((m.execute held w).result = .error .blocked ↔ m.state.isWaiting = true) ∧
      (∀ v, (m.execute held w).result = .error (.unknownInstruction v) ↔
        m.state.isWaiting = false ∧ Instruction.ofWord? w = none ∧ v = w) ∧
      ((m.execute held w).result = .error .stackUnderflow ↔
        m.state.isWaiting = false ∧ w = 0x00EE ∧ m.state.calls.depth = 0) ∧
      (∀ depth, (m.execute held w).result = .error (.stackOverflow depth) ↔
        m.state.isWaiting = false ∧ Word.family w = 2 ∧ m.state.calls.depth = 32 ∧ depth = 32) ∧
      ((m.execute held w).result = .ok () ↔
        m.state.isWaiting = false ∧ Instruction.ofWord? w ≠ none ∧
          ¬ (w = 0x00EE ∧ m.state.calls.depth = 0) ∧
          ¬ (Word.family w = 2 ∧ m.state.calls.depth = 32))) ∧
    (∀ held op fault, (op = .step ∨ ∃ w, op = .execute w) →
      (m.operate held op).result = .error fault → (m.operate held op).machine = m) ∧
    (∀ (b after : Board) slot op fault, (op = .step ∨ ∃ w, op = .execute w) →
      b.operate slot op = (.gain (.error fault), after) →
      { after with history := b.history } = b) ∧
    (∀ held, (m.step held).result ≠ .error .blocked) ∧
    ∀ held fault, (m.step held).result = .error fault →
      ∀ ops, m.FutileRun ops → ∀ held', ((m.run ops).step held').result = .error fault := by
  have hd := h.sound.depth_le
  refine ⟨fun held w => ⟨?_, fun v => ?_, ?_, fun depth => ?_, ?_⟩, ?_, ?_, ?_, ?_⟩
  · rw [execute_eq_error_iff hd, failure?_eq_blocked_iff]
  · rw [execute_eq_error_iff hd, failure?_eq_unknown_iff]
  · rw [execute_eq_error_iff hd, failure?_eq_underflow_iff]
  · rw [execute_eq_error_iff hd, failure?_eq_overflow_iff]
  · rw [execute_eq_ok_iff hd, failure?_eq_none_iff]
  · exact fun held op fault hop => machine_operate_of_error hop
  · exact fun b after slot op fault hop => Board.operate_of_error hop
  · exact fun held => step_ne_blocked
  · intro held fault hfail ops hops
    exact stuck_run (stuck_of_step_error hfail) ops hops

/-- A program that begins with a return stays at its beginning. -/
theorem faults_exact_of_return :
    let m := (new (.ofBytes #[])).run [(.allUp, .load #[0x00, 0xEE])]
    let ops : List (HeldKeys × Op) := [(.press .allUp 3, .hear 3), (.press .allUp 3, .tick),
      (.allUp, .execute 0xFFFF), (.allUp, .step), (.allUp, .takeFrame)]
    m.Reachable ∧ (m.step .allUp).result = .error .stackUnderflow ∧ m.FutileRun ops ∧
      ((m.run ops).step .allUp).result = .error .stackUnderflow := by
  intro m ops
  have reachable : m.Reachable := Reachable.run (.new (.ofBytes _)) _
  obtain ⟨exact_faults, -, -, -, sticky⟩ := faults_exact reachable
  have fetch_eq : m.state.fetch = 0x00EE := by
    have left : m.state.memory.peek 0x200 = 0x00 := Vector.getElem_ofFn _
    have right : m.state.memory.peek 0x201 = 0xEE := Vector.getElem_ofFn _
    exact Memory.word_of_peek left right
  have fails : (m.step .allUp).result = .error .stackUnderflow := by
    rw [step_error_iff, fetch_eq]
    exact ⟨rfl, (exact_faults .allUp 0x00EE).2.2.1.mpr ⟨rfl, rfl, rfl⟩⟩
  have futile : m.FutileRun ops := by
    refine ⟨trivial, trivial, ⟨.unknownInstruction 0xFFFF, ?_⟩, trivial, trivial, trivial⟩
    rw [execute_of_unknown rfl (by decide)]
  exact ⟨reachable, fails, futile, sticky .allUp _ fails ops futile .allUp⟩

end Machine

end Chip8
