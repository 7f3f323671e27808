import Chip8.Proofs.Trace
import Mathlib.Data.List.Induction

/-!
# The timers

Each timer is set by one instruction, and is zero from the start and from every reset on. Ticks
count it down, whatever happens between them, and nothing else touches it. So it shows what it was
last set to, less the ticks since then, but no less than zero. Here a key that goes down on the
keypad is a key that the machine hears, and any keys may be down at each operation.

* `Timer`: the two timers, what they show and which instruction sets them.
* `Timer.LastSet`: what a timer was last set to in a run, and the ticks since then.
* `read_operate`: what one operation does to a timer.
* `timers_count_down`: the main theorem.
-/

namespace Chip8

/-- The timers of a machine. -/
inductive Timer where
  | delay
  | sound

namespace Timer

/-- What a timer shows. -/
def read (s : State) : Timer → UInt8
  | delay => s.delay
  | sound => s.sound

/-- The register whose value an instruction sets a timer to, if it sets the timer. -/
def setFrom? : Timer → Instruction Register → Option Register
  | delay, .setDelay x => some x
  | sound, .setSound x => some x
  | _, _ => none

variable {timer : Timer} {m : Machine} {held : HeldKeys} {op : Machine.Op}
  {ops : List (HeldKeys × Machine.Op)} {value : UInt8}

/-- The runs at whose end a timer is set to a value: by being there at all, by a reset, or by an
    instruction that is performed. -/
inductive SetBy (timer : Timer) (m : Machine) : List (HeldKeys × Machine.Op) → UInt8 → Prop where
  | start : SetBy timer m [] 0
  | reset (ops : List (HeldKeys × Machine.Op)) (held : HeldKeys) :
      SetBy timer m (ops ++ [(held, .reset)]) 0
  | instruction {ops : List (HeldKeys × Machine.Op)} {held : HeldKeys} {op : Machine.Op}
      {instruction : Instruction Register} {x : Register}
      (h : (m.run ops).instruction? held op = some instruction)
      (hx : timer.setFrom? instruction = some x) :
      SetBy timer m (ops ++ [(held, op)]) ((m.run ops).state.v.get x)

/-- The runs that do not set a timer. -/
structure Unset (timer : Timer) (m : Machine) (ops : List (HeldKeys × Machine.Op)) : Prop where
  no_reset : ∀ entry ∈ ops, entry.2 ≠ .reset
  no_setting : ∀ instruction ∈ m.trace ops, timer.setFrom? instruction = none

/-- The ticks in a run. -/
def ticks (ops : List (HeldKeys × Machine.Op)) : ℕ := ops.countP fun entry => entry.2 = .tick

/-- A run sets a timer to a value, and then lets it tick so many times without setting it again. -/
def LastSet (timer : Timer) (m : Machine) (ops : List (HeldKeys × Machine.Op)) (value : UInt8)
    (count : ℕ) : Prop :=
  ∃ before after, ops = before ++ after ∧ timer.SetBy m before value ∧
    timer.Unset (m.run before) after ∧ count = ticks after

/-! ## Single operations -/

theorem read_effect (s : State) (byte : UInt8) (instruction : Instruction Register) :
    timer.read (s.effect byte instruction) =
      match timer.setFrom? instruction with
      | some x => s.v.get x
      | none => timer.read s := by
  cases instruction with
  | combine op x y =>
    obtain ⟨v, hv⟩ := s.exists_combine op x y
    show timer.read (s.combine op x y) = _
    rw [hv]
    cases timer with
    | delay => rfl
    | sound => rfl
  | loadRegisters x =>
    obtain ⟨v, i, hv⟩ := s.exists_loadRegisters x
    show timer.read (s.loadRegisters x) = _
    rw [hv]
    cases timer with
    | delay => rfl
    | sound => rfl
  | _ =>
    cases timer with
    | delay => rfl
    | sound => rfl

theorem read_initial (timer : Timer) : timer.read .initial = 0 := by
  cases timer with
  | delay => rfl
  | sound => rfl

theorem toNat_read_tick (timer : Timer) (s : State) :
    (timer.read s.tick).toNat = (timer.read s).toNat - 1 := by
  cases timer with
  | delay => exact State.toNat_countDown s.delay
  | sound => exact State.toNat_countDown s.sound

/-- An instruction that is performed sets a timer or leaves it alone. -/
theorem read_of_instruction? {instruction : Instruction Register}
    (h : m.instruction? held op = some instruction) :
    timer.read (m.operate held op).machine.state =
      match timer.setFrom? instruction with
      | some x => m.state.v.get x
      | none => timer.read m.state := by
  obtain ⟨pc, calls, after⟩ := Machine.exists_of_instruction? h
  rw [after]
  have control : timer.read { m.state.effect m.source.peek instruction with pc, calls } =
      timer.read (m.state.effect m.source.peek instruction) := by
    cases timer with
    | delay => rfl
    | sound => rfl
  exact control.trans (read_effect m.state _ instruction)

/-- Without an instruction, a timer is touched by ticks and resets only: not by words that fail,
    steps that stand still, keys, programs that are loaded or frames that are taken. -/
theorem read_of_no_instruction (h : m.instruction? held op = none) (htick : op ≠ .tick)
    (hreset : op ≠ .reset) :
    timer.read (m.operate held op).machine.state = timer.read m.state := by
  cases op with
  | load image =>
    cases timer with
    | delay => rfl
    | sound => rfl
  | read outcomes =>
    show timer.read (m.read outcomes).machine.state = _
    unfold Machine.read
    split
    · cases timer with
      | delay => rfl
      | sound => rfl
    · rfl
  | execute w =>
    have same : (m.execute held w).machine = m := Machine.machine_execute_of_not_executed h
    exact congrArg (fun after => timer.read after.state) same
  | step =>
    have same : (m.step held).machine = m := Machine.machine_step_of_no_instruction h
    exact congrArg (fun after => timer.read after.state) same
  | tick => exact absurd rfl htick
  | hear key =>
    show timer.read (m.state.hear key) = _
    unfold State.hear
    split
    · cases timer with
      | delay => rfl
      | sound => rfl
    · rfl
  | reset => exact absurd rfl hreset
  | takeFrame =>
    show timer.read m.takeFrame.2.state = _
    unfold Machine.takeFrame
    split
    · cases timer with
      | delay => rfl
      | sound => rfl
    · rfl

/-- An operation that does not set a timer counts it down if it is a tick. -/
theorem toNat_read_operate (hreset : op ≠ .reset)
    (hset : ∀ instruction ∈ m.instruction? held op, timer.setFrom? instruction = none) :
    (timer.read (m.operate held op).machine.state).toNat =
      (timer.read m.state).toNat - if op = .tick then 1 else 0 := by
  by_cases htick : op = .tick
  · subst htick
    exact toNat_read_tick timer m.state
  · rw [if_neg htick, Nat.sub_zero]
    cases hi : m.instruction? held op with
    | some instruction =>
      rw [read_of_instruction? hi, hset instruction hi]
    | none => rw [read_of_no_instruction hi htick hreset]

/-! ## Runs -/

theorem Unset.of_cons {rest : List (HeldKeys × Machine.Op)}
    (h : timer.Unset m ((held, op) :: rest)) :
    op ≠ .reset ∧ (∀ instruction ∈ m.instruction? held op, timer.setFrom? instruction = none) ∧
      timer.Unset (m.operate held op).machine rest := by
  obtain ⟨hop, hrest⟩ := List.forall_mem_cons.mp h.no_reset
  obtain ⟨first, later⟩ := Machine.forall_trace_cons.mp h.no_setting
  exact ⟨hop, first, hrest, later⟩

/-- A run that does not set a timer counts it down by its ticks. -/
theorem Unset.toNat_read (h : timer.Unset m ops) :
    (timer.read (m.run ops).state).toNat = (timer.read m.state).toNat - ticks ops := by
  induction ops generalizing m with
  | nil => rfl
  | cons entry rest ih =>
    obtain ⟨held, op⟩ := entry
    obtain ⟨hreset, hset, hrest⟩ := h.of_cons
    have count : ticks ((held, op) :: rest) = ticks rest + if op = .tick then 1 else 0 := by
      unfold ticks
      rw [List.countP_cons]
      simp only [decide_eq_true_eq]
    rw [Machine.run_cons, ih hrest, toNat_read_operate hreset hset, count]
    omega

/-- A timer shows the value that it has just been set to. -/
theorem SetBy.read_eq {source : ByteSource} (h : timer.SetBy (.new source) ops value) :
    timer.read ((Machine.new source).run ops).state = value := by
  cases h with
  | start => exact read_initial timer
  | reset ops held =>
    rw [Machine.run_append]
    exact read_initial timer
  | instruction hi hx =>
    rw [Machine.run_append]
    show timer.read (((Machine.new source).run _).operate _ _).machine.state = _
    rw [read_of_instruction? hi, hx]

theorem LastSet.toNat_read {source : ByteSource} {count : ℕ}
    (h : timer.LastSet (.new source) ops value count) :
    (timer.read ((Machine.new source).run ops).state).toNat = value.toNat - count := by
  obtain ⟨before, after, rfl, set, unset, rfl⟩ := h
  rw [Machine.run_append, unset.toNat_read, set.read_eq]

/-- Every run sets a timer for a last time. -/
theorem exists_lastSet (timer : Timer) (m : Machine) (ops : List (HeldKeys × Machine.Op)) :
    ∃ value count, timer.LastSet m ops value count := by
  induction ops using List.reverseRecOn with
  | nil => exact ⟨0, 0, [], [], rfl, .start, ⟨nofun, nofun⟩, rfl⟩
  | append_singleton ops entry ih =>
    obtain ⟨held, op⟩ := entry
    have here {value : UInt8} (set : timer.SetBy m (ops ++ [(held, op)]) value) :
        ∃ value count, timer.LastSet m (ops ++ [(held, op)]) value count :=
      ⟨value, 0, _, [], (List.append_nil _).symm, set, ⟨nofun, nofun⟩, rfl⟩
    by_cases hreset : op = .reset
    · subst hreset
      exact here (.reset ops held)
    by_cases hset : ∃ instruction ∈ (m.run ops).instruction? held op, ∃ x,
        timer.setFrom? instruction = some x
    · obtain ⟨instruction, hi, x, hx⟩ := hset
      exact here (.instruction hi hx)
    · -- The operation does not set the timer, so it was last set where it was before.
      obtain ⟨value, count, before, after, rfl, set, unset, -⟩ := ih
      refine ⟨value, _, before, after ++ [(held, op)], List.append_assoc _ _ _, set, ?_, rfl⟩
      rw [Machine.run_append] at hset
      constructor
      · rw [List.forall_mem_append]
        refine ⟨unset.no_reset, fun entry hentry => ?_⟩
        rw [List.mem_singleton.mp hentry]
        exact hreset
      · rw [Machine.trace_append, List.forall_mem_append]
        refine ⟨unset.no_setting, fun instruction hmem => ?_⟩
        have hi : ((m.run before).run after).instruction? held op = some instruction := by
          simpa [Machine.trace] using hmem
        exact Option.eq_none_iff_forall_ne_some.mpr fun x hx => hset ⟨instruction, hi, x, hx⟩

end Timer

namespace Machine

/-- The instruction that reads the delay timer leaves in its register what the timer shows. -/
theorem get_loadDelay {m : Machine} {held : HeldKeys} {op : Op} {x : Register}
    (h : m.instruction? held op = some (.loadDelay x)) :
    (m.operate held op).machine.state.v.get x = m.state.delay := by
  obtain ⟨pc, calls, after⟩ := exists_of_instruction? h
  rw [after]
  exact State.get_setV_self m.state x _

theorem isSounding_iff (s : State) : s.isSounding = true ↔ 0 < s.sound.toNat := by
  unfold State.isSounding
  rw [decide_eq_true_iff, UInt8.lt_iff_toNat_lt]
  exact Iff.rfl

/-- **Main theorem.** In every run of a new machine each timer was last set to some value. It shows
    that value less the ticks since then, and zero if there were more of them, in whatever way they
    are spread among operations that perform instructions, fail or stand still. The instruction that
    reads the delay timer leaves just this in its register, and a tone sounds as long as the sound
    timer is not at zero. -/
theorem timers_count_down (source : ByteSource) (ops : List (HeldKeys × Op)) :
    let m := (new source).run ops
    (∀ timer : Timer, ∃ value count, timer.LastSet (new source) ops value count) ∧
      (∀ (timer : Timer) (value : UInt8) (count : ℕ), timer.LastSet (new source) ops value count →
        (timer.read m.state).toNat = value.toNat - count) ∧
      (∀ (value : UInt8) (count : ℕ), Timer.delay.LastSet (new source) ops value count →
        ∀ (held : HeldKeys) (op : Op) (x : Register), m.instruction? held op = some (.loadDelay x) →
          ((m.operate held op).machine.state.v.get x).toNat = value.toNat - count) ∧
      ∀ (value : UInt8) (count : ℕ), Timer.sound.LastSet (new source) ops value count →
        (m.state.isSounding = true ↔ 0 < value.toNat - count) := by
  intro m
  refine ⟨fun timer => timer.exists_lastSet _ ops, fun _ _ _ set => set.toNat_read, ?_, ?_⟩
  · intro value count set held op x h
    rw [get_loadDelay h]
    exact set.toNat_read
  · intro value count set
    rw [isSounding_iff]
    exact iff_of_eq (congrArg (0 < ·) set.toNat_read)

/-- The delay timer is set to 5. It ticks once before and once after the machine begins to wait for
    a key, and once more behind a word that the machine refuses. -/
theorem timers_count_down_of_waiting :
    let setting : List (HeldKeys × Op) := [(.allUp, .execute 0x6005), (.allUp, .execute 0xF015)]
    let ticking : List (HeldKeys × Op) := [(.allUp, .tick), (.allUp, .execute 0xF10A),
      (.allUp, .step), (.allUp, .tick), (.allUp, .execute 0x00E0), (.allUp, .tick)]
    let m := (new (.ofBytes #[])).run (setting ++ ticking)
    Timer.delay.LastSet (new (.ofBytes #[])) (setting ++ ticking) 5 3 ∧
      m.state.isWaiting = true ∧ m.state.delay.toNat = 5 - 3 := by
  intro setting ticking m
  let loaded := (new (.ofBytes #[])).run [(.allUp, .execute 0x6005)]
  have performed : loaded.instruction? .allUp (.execute 0xF015) = some (.setDelay 0) := by decide
  have value : loaded.state.v.get 0 = 5 := by decide
  have set : Timer.delay.SetBy (new (.ofBytes #[])) setting (loaded.state.v.get 0) :=
    Timer.SetBy.instruction performed rfl
  rw [value] at set
  have last : Timer.delay.LastSet (new (.ofBytes #[])) (setting ++ ticking) 5 3 :=
    ⟨setting, ticking, rfl, set, ⟨by decide, by decide⟩, rfl⟩
  exact ⟨last, by decide, (timers_count_down (.ofBytes #[]) (setting ++ ticking)).2.1 _ _ _ last⟩

end Machine

end Chip8
