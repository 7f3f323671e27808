import Chip8.Proofs.Trace
import Mathlib.Logic.Function.Iterate

/-!
# Ticks among steps

A tick touches the two timers, and three instructions have to do with them. So a tick may be moved
across every operation that performs none of these, be it that another instruction is performed or
that the operation fails or stands still; only a reset stands in its way, because it sets the
timers. A program without these instructions therefore runs alike however many steps are made
between one tick and the next.

* `Instruction.usesTimer`: the three instructions.
* `effect_tick`: the others have the same effect before a tick and after it.
* `operate_tick`, `run_tick`: a tick moved across an operation, and across a run.
* `Cadence`: the runs that come of one run when ticks are put in.
* `ticks_commute`: the main theorem.
-/

namespace Chip8

/-- Whether the instruction reads or sets a timer. -/
def Instruction.usesTimer {ρ : Type} : Instruction ρ → Bool
  | loadDelay _ | setDelay _ | setSound _ => true
  | _ => false

/-! ## States -/

namespace State

variable {instruction : Instruction Register}

theorem holds_tick (s : State) (held : HeldKeys) (test : Test Register) :
    test.holds s.tick held = test.holds s held := by
  cases test with
  | _ => rfl

/-- An instruction that leaves the timers alone has the same effect before a tick and after it. -/
theorem effect_tick (h : instruction.usesTimer = false) (s : State) (byte : UInt8) :
    s.tick.effect byte instruction = (s.effect byte instruction).tick := by
  cases instruction with
  | loadDelay x => cases h
  | setDelay x => cases h
  | setSound x => cases h
  | combine op x y =>
    cases op with
    | _ => rfl
  | loadRegisters x =>
    show s.tick.loadRegisters x = (s.loadRegisters x).tick
    unfold loadRegisters advanceIndex tick
    rfl
  | _ => rfl

theorem fault?_tick (s : State) (instruction : Instruction Register) :
    s.tick.fault? instruction = s.fault? instruction := by
  cases instruction with
  | _ => rfl

theorem callsAfter_tick (s : State) (instruction : Instruction Register) :
    s.tick.callsAfter instruction = s.callsAfter instruction := by
  cases instruction with
  | _ => rfl

theorem landing_tick (s : State) (held : HeldKeys) (instruction : Instruction Register) :
    s.tick.landing held instruction = s.landing held instruction := by
  cases instruction with
  | skip test =>
    simp only [landing, holds_tick]
    rfl
  | _ => rfl

theorem hear_tick (s : State) (key : UInt8) : s.tick.hear key = (s.hear key).tick := by
  have register : s.tick.awaiting = s.awaiting := rfl
  unfold hear
  rw [register]
  cases s.awaiting with
  | none => rfl
  | some x => rfl

end State

/-- The outcome with a tick behind the operation. -/
def Outcome.tick {α : Type} (o : Outcome α) : Outcome α := ⟨o.result, o.machine.tick, o.entries⟩

theorem Outcome.machine_tick {α : Type} (o : Outcome α) : o.tick.machine = o.machine.tick := rfl

namespace Machine

variable {m : Machine} {held : HeldKeys} {op : Op} {w : Word} {instruction : Instruction Register}
  {ops rest : List (HeldKeys × Op)} {count : ℕ}

/-! ## One operation -/

theorem performed_tick (h : instruction.usesTimer = false) :
    m.tick.performed held instruction = (m.performed held instruction).tick := by
  unfold performed tick
  simp only
  rw [State.effect_tick h, State.landing_tick, State.callsAfter_tick]
  rfl

/-- A tick does not change which instruction an operation performs. -/
theorem instruction?_tick (m : Machine) (held : HeldKeys) (op : Op) :
    m.tick.instruction? held op = m.instruction? held op := by
  have executed (w : Word) : m.tick.executed? held w = m.executed? held w := by
    ext instruction
    rw [executed?_eq_some_iff, executed?_eq_some_iff, ← State.fault?_tick m.state instruction]
    rfl
  cases op with
  | execute w => exact executed w
  | step =>
    show (if m.state.isWaiting then none else m.tick.executed? held m.state.fetch) = _
    rw [executed]
    rfl
  | _ => rfl

theorem execute_tick (h : ∀ instruction ∈ m.executed? held w, instruction.usesTimer = false) :
    m.tick.execute held w = (m.execute held w).tick := by
  have waits : m.tick.state.isWaiting = m.state.isWaiting := rfl
  cases m.verdict w with
  | waiting hwait =>
    rw [execute_of_waiting hwait, execute_of_waiting (waits.trans hwait)]
    rfl
  | unknown hwait hw =>
    rw [execute_of_unknown hwait hw, execute_of_unknown (waits.trans hwait) hw]
    rfl
  | faulty hwait instruction fault hw hf =>
    have hf' := (m.state.fault?_tick instruction).trans hf
    rw [execute_of_fault hwait hw hf, execute_of_fault (waits.trans hwait) hw hf']
    rfl
  | runs hwait instruction hw hf =>
    have hf' := (m.state.fault?_tick instruction).trans hf
    have quiet := h instruction (executed?_eq_some_iff.mpr ⟨hwait, hw, hf⟩)
    rw [execute_of_runs hwait hw hf, execute_of_runs (waits.trans hwait) hw hf',
      performed_tick quiet]
    rfl

theorem step_tick (h : ∀ instruction ∈ m.instruction? held .step, instruction.usesTimer = false) :
    m.tick.step held = (m.step held).tick := by
  cases hwait : m.state.isWaiting with
  | true =>
    rw [step_of_waiting hwait, step_of_waiting (m := m.tick) hwait]
    rfl
  | false =>
    -- A step executes the word in memory and moves on, and moving on has nothing to do with timers.
    have waits : m.tick.state.isWaiting = false := hwait
    have fetched : m.tick.state.fetch = m.state.fetch := rfl
    have executed : m.tick.execute held m.state.fetch = (m.execute held m.state.fetch).tick :=
      execute_tick fun instruction hi => h instruction (by simpa [instruction?, hwait] using hi)
    unfold step
    simp only [waits, hwait, fetched, executed, Bool.false_eq_true, ↓reduceIte]
    cases hr : (m.execute held m.state.fetch).result with
    | ok done =>
      simp only [Outcome.tick, hr]
      rfl
    | error fault => simp only [Outcome.tick, hr]

/-- A tick may be moved from before an operation behind it, unless that is a reset or performs an
    instruction that has to do with a timer. -/
theorem operate_tick (hreset : op ≠ .reset)
    (h : ∀ instruction ∈ m.instruction? held op, instruction.usesTimer = false) :
    m.tick.operate held op = (m.operate held op).tick := by
  cases op with
  | load image => rfl
  | read outcomes =>
    show (m.tick.read outcomes).map Gain.loaded = ((m.read outcomes).map Gain.loaded).tick
    unfold read
    split
    · rfl
    · rfl
  | execute w => exact congrArg (Outcome.map _) (execute_tick h)
  | step => exact congrArg (Outcome.map _) (step_tick h)
  | tick => rfl
  | hear key =>
    have hear_eq : m.tick.hear key = (m.hear key).tick :=
      congrArg (Machine.mk · m.source m.subscription) (m.state.hear_tick key)
    exact congrArg (Outcome.mk (.ok Gain.nothing) · []) hear_eq
  | reset => exact absurd rfl hreset
  | takeFrame =>
    have mark : m.tick.state.redraw = m.state.redraw := rfl
    show (⟨.ok (.frame m.tick.takeFrame.1), m.tick.takeFrame.2, []⟩ : Outcome Gain) =
      ⟨.ok (.frame m.takeFrame.1), m.takeFrame.2.tick, []⟩
    unfold takeFrame
    rw [mark]
    split
    · rfl
    · rfl

/-! ## Runs -/

/-- The runs with no reset, in which no instruction is performed that has to do with a timer. -/
structure Untimed (m : Machine) (ops : List (HeldKeys × Op)) : Prop where
  no_reset : ∀ entry ∈ ops, entry.2 ≠ .reset
  no_timer : ∀ instruction ∈ m.trace ops, instruction.usesTimer = false

/-- What the operations of a run give back and report, its ticks left out. -/
def answers (m : Machine) : List (HeldKeys × Op) → List (Except Fault Gain × List Entry)
  | [] => []
  | (held, op) :: rest =>
    let outcome := m.operate held op
    let later := outcome.machine.answers rest
    if op = .tick then later else (outcome.result, outcome.entries) :: later

theorem Untimed.of_cons (h : m.Untimed ((held, op) :: rest)) :
    op ≠ .reset ∧ (∀ instruction ∈ m.instruction? held op, instruction.usesTimer = false) ∧
      (m.operate held op).machine.Untimed rest := by
  obtain ⟨hop, hrest⟩ := List.forall_mem_cons.mp h.no_reset
  obtain ⟨first, later⟩ := forall_trace_cons.mp h.no_timer
  exact ⟨hop, first, hrest, later⟩

/-- A tick may be moved from before a run behind it. -/
theorem run_tick (h : m.Untimed ops) :
    m.tick.run ops = (m.run ops).tick ∧ m.tick.trace ops = m.trace ops ∧
      m.tick.answers ops = m.answers ops := by
  induction ops generalizing m with
  | nil => exact ⟨rfl, rfl, rfl⟩
  | cons entry rest ih =>
    obtain ⟨held, op⟩ := entry
    obtain ⟨hreset, quiet, hrest⟩ := h.of_cons
    obtain ⟨run_eq, trace_eq, answers_eq⟩ := ih hrest
    have moved := operate_tick hreset quiet
    refine ⟨?_, ?_, ?_⟩
    · rw [run_cons, run_cons, moved, Outcome.machine_tick, run_eq]
    · simp only [trace]
      rw [instruction?_tick, moved, Outcome.machine_tick, trace_eq]
    · simp only [answers]
      rw [moved, Outcome.machine_tick, answers_eq]
      rfl

/-- The runs that come of a run when `count` ticks are put in at any places. -/
inductive Cadence : List (HeldKeys × Op) → ℕ → List (HeldKeys × Op) → Prop where
  | nil : Cadence [] 0 []
  | keep {rest : List (HeldKeys × Op)} {count : ℕ} {ops : List (HeldKeys × Op)}
      (entry : HeldKeys × Op) (h : Cadence rest count ops) :
      Cadence (entry :: rest) count (entry :: ops)
  | tick {rest : List (HeldKeys × Op)} {count : ℕ} {ops : List (HeldKeys × Op)}
      (held : HeldKeys) (h : Cadence rest count ops) :
      Cadence rest (count + 1) ((held, .tick) :: ops)

/-- Wherever ticks are put in, they might as well be made at the end. -/
theorem Cadence.run_eq (h : Cadence rest count ops) (hrest : m.Untimed rest) :
    m.run ops = Machine.tick^[count] (m.run rest) ∧ m.answers ops = m.answers rest := by
  induction h generalizing m with
  | nil => exact ⟨rfl, rfl⟩
  | keep entry _ ih =>
    obtain ⟨held, op⟩ := entry
    obtain ⟨run_eq, answers_eq⟩ := ih hrest.of_cons.2.2
    refine ⟨run_eq, ?_⟩
    simp only [answers]
    rw [answers_eq]
  | tick held _ ih =>
    obtain ⟨run_eq, trace_eq, answers_eq⟩ := run_tick hrest
    have later : m.tick.Untimed _ := ⟨hrest.no_reset, trace_eq ▸ hrest.no_timer⟩
    obtain ⟨run_eq', answers_eq'⟩ := ih later
    refine ⟨?_, answers_eq'.trans answers_eq⟩
    rw [Function.iterate_succ_apply, ← run_eq]
    exact run_eq'

/-- The run of nothing but steps, with the keys that are down at each of them. -/
def steps (keys : List HeldKeys) : List (HeldKeys × Op) := keys.map (·, .step)

/-- Steps reset nothing. -/
theorem untimed_steps {keys : List HeldKeys}
    (h : ∀ instruction ∈ m.trace (steps keys), instruction.usesTimer = false) :
    m.Untimed (steps keys) where
  no_timer := h
  no_reset entry hentry := by
    obtain ⟨held, -, rfl⟩ := List.mem_map.mp hentry
    exact Op.noConfusion

/-- **Main theorem.** If a machine waits for a key, or the word it is about to perform has nothing
    to do with a timer, a tick may be moved across its next step: the result, the machine with its
    random source, and the report are the same. So if no instruction of a run of steps has to do
    with a timer, it does not matter where ticks are put in: the steps give the same results, and
    the machine is the same in the end as if the ticks had come last. -/
theorem ticks_commute :
    (∀ (m : Machine) (held : HeldKeys),
      (m.state.isWaiting = true ∨ ∀ instruction,
        Instruction.ofWord? m.state.fetch = some instruction → instruction.usesTimer = false) →
      (m.tick.step held).result = (m.step held).result ∧
        (m.tick.step held).machine = (m.step held).machine.tick ∧
        (m.tick.step held).entries = (m.step held).entries) ∧
    ∀ (m : Machine) (keys : List HeldKeys) (count : ℕ) (ops : List (HeldKeys × Op)),
      (∀ instruction ∈ m.trace (steps keys), instruction.usesTimer = false) →
      Cadence (steps keys) count ops →
        m.run ops = Machine.tick^[count] (m.run (steps keys)) ∧
          m.answers ops = m.answers (steps keys) := by
  constructor
  · intro m held hfetch
    have quiet : ∀ instruction ∈ m.instruction? held .step, instruction.usesTimer = false := by
      intro instruction hi
      obtain ⟨hwait, hw, -⟩ := instruction?_step_eq_some_iff.mp hi
      rcases hfetch with waits | untimed
      · rw [waits] at hwait
        cases hwait
      · exact untimed instruction hw
    rw [step_tick quiet]
    exact ⟨rfl, rfl, rfl⟩
  · exact fun m keys count ops quiet cadence => cadence.run_eq (untimed_steps quiet)

theorem toNat_delay_ticks (m : Machine) (count : ℕ) :
    (Machine.tick^[count] m).state.delay.toNat = m.state.delay.toNat - count := by
  induction count generalizing m with
  | zero => rfl
  | succ count ih =>
    rw [Function.iterate_succ_apply, ih]
    show (State.countDown m.state.delay).toNat - count = _
    rw [State.toNat_countDown, Nat.sub_sub, Nat.add_comm 1]

/-- A program that draws a random byte and then waits for a key, while the delay timer counts down
    from 5. Four ticks are put in before, between and behind its steps, of which the last stands
    still. -/
theorem ticks_commute_of_waiting :
    let set := (new (.ofBytes #[0x5A])).run [(.allUp, .execute 0x6005), (.allUp, .execute 0xF015)]
    let m := (set.load #[0xC1, 0x0F, 0xF2, 0x0A]).machine
    let keys : List HeldKeys := [.allUp, .press .allUp 7, .allUp]
    let ops : List (HeldKeys × Op) := [(.allUp, .tick), (.allUp, .step), (.allUp, .tick),
      (.press .allUp 7, .step), (.allUp, .tick), (.allUp, .tick), (.allUp, .step)]
    (∀ instruction, Instruction.ofWord? m.state.fetch = some instruction →
        instruction.usesTimer = false) ∧
      (m.tick.step .allUp).machine = (m.step .allUp).machine.tick ∧
      m.trace (steps keys) = [.random 1 0x0F, .awaitKey 2] ∧ Cadence (steps keys) 4 ops ∧
      m.run ops = Machine.tick^[4] (m.run (steps keys)) ∧ (m.run ops).state.delay = 1 := by
  intro set m keys ops
  have word_random : m.state.fetch = 0xC10F := by
    have left : m.state.memory.peek 0x200 = 0xC1 := Vector.getElem_ofFn _
    have right : m.state.memory.peek 0x201 = 0x0F := Vector.getElem_ofFn _
    exact Memory.word_of_peek left right
  let drawn := m.advanced .allUp (.random 1 0x0F)
  have word_wait : drawn.state.fetch = 0xF20A := by
    have left : m.state.memory.peek 0x202 = 0xF2 := Vector.getElem_ofFn _
    have right : m.state.memory.peek 0x203 = 0x0A := Vector.getElem_ofFn _
    exact Memory.word_of_peek left right
  have draws : m.instruction? .allUp .step = some (.random 1 0x0F) := by
    rw [instruction?_step_eq_some_iff, word_random]
    exact ⟨rfl, by decide, rfl⟩
  have waits : drawn.instruction? (.press .allUp 7) .step = some (.awaitKey 2) := by
    rw [instruction?_step_eq_some_iff, word_wait]
    exact ⟨rfl, by decide, rfl⟩
  let waiting := drawn.advanced (.press .allUp 7) (.awaitKey 2)
  have after_draw : (m.operate .allUp .step).machine = drawn :=
    (machine_operate_step m _).trans (machine_step_of_instruction? draws)
  have after_wait : (drawn.operate (.press .allUp 7) .step).machine = waiting :=
    (machine_operate_step drawn _).trans (machine_step_of_instruction? waits)
  have after_idle : (waiting.operate .allUp .step).machine = waiting :=
    (machine_operate_step waiting _).trans (machine_step_of_no_instruction rfl)
  have performed : m.trace (steps keys) = [.random 1 0x0F, .awaitKey 2] := by
    simp only [keys, steps, List.map_cons, List.map_nil, trace, draws, after_draw, waits,
      after_wait]
    rfl
  have ended : m.run (steps keys) = waiting := by
    show m.run [(.allUp, .step), (.press .allUp 7, .step), (.allUp, .step)] = waiting
    rw [run_cons, after_draw, run_cons, after_wait, run_cons, after_idle]
    rfl
  have cadence : Cadence (steps keys) 4 ops :=
    .tick _ (.keep _ (.tick _ (.keep _ (.tick _ (.tick _ (.keep _ .nil))))))
  have untimed : ∀ instruction, Instruction.ofWord? m.state.fetch = some instruction →
      instruction.usesTimer = false := by
    rw [word_random]
    decide
  have delay_eq : waiting.state.delay = 5 := by
    show set.state.delay = 5
    decide
  obtain ⟨across, anywhere⟩ := ticks_commute
  have moved := (anywhere m keys 4 ops (by rw [performed]; decide) cadence).1
  refine ⟨untimed, (across m .allUp (.inr untimed)).2.1, performed, cadence, moved, ?_⟩
  apply UInt8.toNat_inj.mp
  rw [moved, ended, toNat_delay_ticks, delay_eq]
  rfl

end Machine

end Chip8
