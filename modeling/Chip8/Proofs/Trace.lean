import Chip8.Proofs.Reachable

/-!
# The instructions of a run

Which instructions a machine performs while it is operated, words that fail and steps that stand
still left out.

* `Machine.instruction?`: the instruction that an operation performs, if it performs one.
* `Machine.trace`: the instructions of a run, the first one first.
* `Machine.bytesUsed`: the random bytes that they use up, and `source_run`, what is left then.
* `Machine.Running`: the runs of steps, with ticks, keys and frames in between.
-/

namespace Chip8.Machine

variable {m : Machine} {held : HeldKeys} {w : Word} {instruction : Instruction Register}

/-- The instruction that the machine performs when it is handed a word, if it performs one. -/
def executed? (m : Machine) (held : HeldKeys) (w : Word) : Option (Instruction Register) :=
  match (m.execute held w).result with
  | .ok () => Instruction.ofWord? w
  | .error _ => none

/-- The instruction that an operation performs, if it performs one. -/
def instruction? (m : Machine) (held : HeldKeys) : Op → Option (Instruction Register)
  | .execute w => m.executed? held w
  | .step => if m.state.isWaiting then none else m.executed? held m.state.fetch
  | .load _ | .read _ | .tick | .hear _ | .reset | .takeFrame => none

/-- The instructions that are performed in a run. -/
def trace (m : Machine) : List (HeldKeys × Op) → List (Instruction Register)
  | [] => []
  | (held, op) :: rest => (m.instruction? held op).toList ++ (m.operate held op).machine.trace rest

/-- The operations of a machine that is left to its program. -/
def Op.IsRunning : Op → Prop
  | .step | .tick | .hear _ | .takeFrame => True
  | .load _ | .read _ | .execute _ | .reset => False

/-- The runs of a machine that is left to its program. Any keys may be down at each operation. -/
def Running (ops : List (HeldKeys × Op)) : Prop := ∀ entry ∈ ops, entry.2.IsRunning

/-! ## Runs in parts -/

theorem run_append (m : Machine) (first second : List (HeldKeys × Op)) :
    m.run (first ++ second) = (m.run first).run second := List.foldl_append

theorem trace_append (m : Machine) (first second : List (HeldKeys × Op)) :
    m.trace (first ++ second) = m.trace first ++ (m.run first).trace second := by
  induction first generalizing m with
  | nil => rfl
  | cons entry rest ih =>
    change _ ++ trace _ (rest ++ second) = _ ++ trace _ rest ++ _
    rw [ih, List.append_assoc]
    rfl

theorem run_cons (m : Machine) (held : HeldKeys) (op : Op) (rest : List (HeldKeys × Op)) :
    m.run ((held, op) :: rest) = (m.operate held op).machine.run rest := rfl

theorem forall_trace_cons {op : Op} {rest : List (HeldKeys × Op)}
    {P : Instruction Register → Prop} :
    (∀ instruction ∈ m.trace ((held, op) :: rest), P instruction) ↔
      (∀ instruction ∈ m.instruction? held op, P instruction) ∧
        ∀ instruction ∈ (m.operate held op).machine.trace rest, P instruction := by
  simp only [trace, List.forall_mem_append, Option.mem_toList, Option.mem_def]

theorem machine_operate_step (m : Machine) (held : HeldKeys) :
    (m.operate held .step).machine = (m.step held).machine := rfl

theorem Running.of_cons {op : Op} {rest : List (HeldKeys × Op)}
    (h : Running ((held, op) :: rest)) : op.IsRunning ∧ Running rest :=
  List.forall_mem_cons.mp h

theorem Running.of_append {first second : List (HeldKeys × Op)} (h : Running (first ++ second)) :
    Running first ∧ Running second :=
  List.forall_mem_append.mp h

/-! ## What is performed -/

/-- An instruction is performed if nothing stands against it. -/
theorem executed?_eq_some_iff :
    m.executed? held w = some instruction ↔
      m.state.isWaiting = false ∧ Instruction.ofWord? w = some instruction ∧
        m.state.fault? instruction = none := by
  unfold executed?
  cases m.verdict w with
  | waiting hwait => simp [execute_of_waiting hwait, hwait]
  | unknown hwait hw => simp [execute_of_unknown hwait hw, hw]
  | faulty hwait other fault hw hf =>
    simp only [execute_of_fault hwait hw hf, hw, Option.some.injEq, reduceCtorEq, false_iff]
    rintro ⟨-, rfl, hnone⟩
    rw [hf] at hnone
    cases hnone
  | runs hwait other hw hf =>
    simp only [execute_of_runs hwait hw hf, hw, hwait, Option.some.injEq, true_and]
    constructor
    · rintro rfl
      exact ⟨rfl, hf⟩
    · exact fun h => h.1

theorem instruction?_step_eq_some_iff :
    m.instruction? held .step = some instruction ↔
      m.state.isWaiting = false ∧ Instruction.ofWord? m.state.fetch = some instruction ∧
        m.state.fault? instruction = none := by
  unfold instruction?
  cases hwait : m.state.isWaiting with
  | true => simp
  | false => simp [executed?_eq_some_iff, hwait]

/-- A step that performs an instruction advances the machine by it. -/
theorem machine_step_of_instruction? (h : m.instruction? held .step = some instruction) :
    (m.step held).machine = m.advanced held instruction := by
  obtain ⟨hwait, hw, hf⟩ := instruction?_step_eq_some_iff.mp h
  rw [step_of_runs hwait hw hf]

/-- A step that performs no instruction changes nothing. -/
theorem machine_step_of_no_instruction (h : m.instruction? held .step = none) :
    (m.step held).machine = m := by
  rcases m.step_cases held with same | ⟨instruction, performed⟩
  · exact same
  · rw [instruction?_step_eq_some_iff.mpr performed] at h
    cases h

/-- A word that performs an instruction leaves the machine just short of moving on behind it. -/
theorem machine_execute_of_executed? (h : m.executed? held w = some instruction) :
    (m.execute held w).machine = m.performed held instruction := by
  obtain ⟨hwait, hw, hf⟩ := executed?_eq_some_iff.mp h
  rw [execute_of_runs hwait hw hf]

/-- A word that performs no instruction changes nothing. -/
theorem machine_execute_of_not_executed (h : m.executed? held w = none) :
    (m.execute held w).machine = m := by
  rcases m.execute_cases held w with same | ⟨instruction, performed⟩
  · exact same
  · rw [executed?_eq_some_iff.mpr performed] at h
    cases h

/-- An operation that performs an instruction has the effect of it, apart from control. -/
theorem exists_of_instruction? {op : Op} (h : m.instruction? held op = some instruction) :
    ∃ pc calls, (m.operate held op).machine =
      { m with
        state := { m.state.effect m.source.peek instruction with pc, calls }
        source := if instruction.takesByte then m.source.advance else m.source } := by
  cases op with
  | execute w =>
    rw [show (m.operate held (.execute w)).machine = (m.execute held w).machine from rfl,
      machine_execute_of_executed? h]
    exact ⟨_, _, rfl⟩
  | step =>
    rw [machine_operate_step, machine_step_of_instruction? h]
    exact ⟨_, _, rfl⟩
  | _ => cases h

/-- An operation that performs no instruction leaves alone what is not part of the state. -/
theorem exists_of_no_instruction {op : Op} (h : m.instruction? held op = none) :
    ∃ state, (m.operate held op).machine = { m with state } := by
  cases op with
  | execute w =>
    have same : (m.execute held w).machine = m := machine_execute_of_not_executed h
    exact ⟨m.state, same⟩
  | step =>
    have same : (m.step held).machine = m := machine_step_of_no_instruction h
    exact ⟨m.state, same⟩
  | read outcomes =>
    change ∃ state, (m.read outcomes).machine = { m with state }
    unfold read
    split
    · exact ⟨_, rfl⟩
    · exact ⟨m.state, rfl⟩
  | takeFrame =>
    change ∃ state, m.takeFrame.2 = { m with state }
    unfold takeFrame
    split
    · exact ⟨_, rfl⟩
    · exact ⟨m.state, rfl⟩
  | _ => exact ⟨_, rfl⟩

/-- No operation touches the subscription. -/
theorem subscription_operate (m : Machine) (held : HeldKeys) (op : Op) :
    (m.operate held op).machine.subscription = m.subscription := by
  cases hi : m.instruction? held op with
  | some instruction =>
    obtain ⟨pc, calls, after⟩ := exists_of_instruction? hi
    rw [after]
  | none =>
    obtain ⟨state, after⟩ := exists_of_no_instruction hi
    rw [after]

/-- Left to its program, a machine performs instructions in steps only. -/
theorem Op.IsRunning.eq_step {op : Op} (hop : op.IsRunning)
    (h : m.instruction? held op = some instruction) : op = .step := by
  cases op with
  | step => rfl
  | execute w => cases hop
  | _ => cases h

/-- Where in a run an instruction of its trace is performed. -/
theorem exists_of_trace_eq {ops : List (HeldKeys × Op)} (hops : Running ops)
    {before after : List (Instruction Register)}
    (h : m.trace ops = before ++ instruction :: after) :
    ∃ first held second, ops = first ++ (held, .step) :: second ∧ m.trace first = before ∧
      (m.run first).instruction? held .step = some instruction ∧
      ((m.run first).step held).machine.trace second = after := by
  induction ops generalizing m before with
  | nil => simp [trace] at h
  | cons entry rest ih =>
    obtain ⟨held, op⟩ := entry
    obtain ⟨hop, hrest⟩ := hops.of_cons
    have deeper {outer : List (Instruction Register)}
        (heq : (m.operate held op).machine.trace rest = outer ++ instruction :: after)
        (hbefore : (m.instruction? held op).toList ++ outer = before) :
        ∃ first held' second, (held, op) :: rest = first ++ (held', .step) :: second ∧
          m.trace first = before ∧ (m.run first).instruction? held' .step = some instruction ∧
          ((m.run first).step held').machine.trace second = after := by
      obtain ⟨first, held', second, rfl, rfl, hi, hafter⟩ := ih hrest heq
      exact ⟨(held, op) :: first, held', second, rfl, hbefore, hi, hafter⟩
    cases hi : m.instruction? held op with
    | none =>
      simp only [trace, hi, Option.toList_none, List.nil_append] at h
      exact deeper h (by rw [hi]; rfl)
    | some other =>
      simp only [trace, hi, Option.toList_some, List.cons_append, List.nil_append] at h
      rcases List.cons_eq_append_iff.mp h with ⟨rfl, hhead⟩ | ⟨tail, rfl, htail⟩
      · obtain rfl := hop.eq_step hi
        cases hhead
        exact ⟨[], held, rest, rfl, rfl, hi, rfl⟩
      · exact deeper htail (by rw [hi]; rfl)

/-! ## Random bytes -/

/-- The random bytes that a run uses up. -/
def bytesUsed (m : Machine) (ops : List (HeldKeys × Op)) : ℕ := (m.trace ops).countP (·.takesByte)

/-- An operation uses up a random byte if it performs an instruction that takes one. -/
theorem source_operate (m : Machine) (held : HeldKeys) (op : Op) :
    (m.operate held op).machine.source =
      m.source.drop ((m.instruction? held op).toList.countP (·.takesByte)) := by
  cases hi : m.instruction? held op with
  | some instruction =>
    obtain ⟨pc, calls, after⟩ := exists_of_instruction? hi
    rw [after]
    by_cases htakes : instruction.takesByte = true
    · simp [htakes, ByteSource.drop]
    · simp [htakes, ByteSource.drop]
  | none =>
    obtain ⟨state, after⟩ := exists_of_no_instruction hi
    rw [after]
    rfl

/-- What is left of the source behind a run. -/
theorem source_run (m : Machine) (ops : List (HeldKeys × Op)) :
    (m.run ops).source = m.source.drop (m.bytesUsed ops) := by
  induction ops generalizing m with
  | nil => rfl
  | cons entry rest ih =>
    obtain ⟨held, op⟩ := entry
    have used : m.bytesUsed ((held, op) :: rest) =
        (m.instruction? held op).toList.countP (·.takesByte) +
          (m.operate held op).machine.bytesUsed rest :=
      List.countP_append
    rw [run_cons, ih, source_operate, ByteSource.drop_drop, used]

end Chip8.Machine
