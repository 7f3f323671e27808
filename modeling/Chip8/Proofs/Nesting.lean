import Chip8.Proofs.Faults
import Chip8.Proofs.Trace

/-!
# Calls and returns

A machine that is left to its program uses its call stack as a list of return addresses: a call
adds one at the end, a return takes the last one off and goes on behind it, and nothing else
touches the list.

* `Machine.Move`: the three ways the list can go in one operation.
* `depth_run`: the depth counts calls less returns.
* `frames_run`: what lies below is not touched by what happens above it.
* `Instruction.Nested`: properly nested calls and returns, and `Nested.own_call`, the call that a
  return belongs to.
-/

namespace Chip8

/-! ## The call stack as a list -/

namespace CallStack

theorem length_live {c : CallStack} (h : c.depth ≤ 32) : c.live.length = c.depth := by
  unfold live
  rw [List.length_take, Vector.length_toList]
  omega

theorem live_push {c : CallStack} (h : c.depth < 32) (back : UInt16) :
    live ⟨c.slots.setIfInBounds c.depth back, c.depth + 1⟩ = c.live ++ [back] := by
  apply live_push?
  rw [push?_eq, if_neg (by omega)]

theorem live_pop {c : CallStack} (h : c.depth ≤ 32) (nonempty : c.depth ≠ 0) :
    c.live = live { c with depth := c.depth - 1 } ++ [c.slots[c.depth - 1]?.getD 0] := by
  have inside : c.depth - 1 < c.slots.toList.length := by
    rw [Vector.length_toList]
    omega
  have last : c.slots[c.depth - 1]?.getD 0 = c.slots.toList[c.depth - 1] := by
    rw [Vector.getElem?_eq_getElem (by omega)]
    simp
  unfold live
  rw [last, List.take_append_getElem inside, Nat.sub_add_cancel (by omega)]

end CallStack

/-! ## Nested calls -/

namespace Instruction

/-- Whether the instruction is a call. -/
def isCall {ρ : Type} : Instruction ρ → Bool
  | call _ => true
  | _ => false

/-- Whether the instruction is a return. -/
def isRet {ρ : Type} : Instruction ρ → Bool
  | ret => true
  | _ => false

/-- The sequences in which every call has its return, and every return its call. -/
inductive Nested {ρ : Type} : List (Instruction ρ) → Prop where
  | nil : Nested []
  /-- First an instruction that is neither. -/
  | other {instruction : Instruction ρ} {rest : List (Instruction ρ)}
      (hcall : instruction.isCall = false) (hret : instruction.isRet = false) (h : Nested rest) :
      Nested (instruction :: rest)
  /-- First a call, with what its subroutine does, and the return from it. -/
  | subroutine (target : UInt16) {body rest : List (Instruction ρ)} (hbody : Nested body)
      (hrest : Nested rest) : Nested (call target :: (body ++ ret :: rest))

variable {ρ : Type} {l : List (Instruction ρ)}

theorem Nested.countP_eq (h : Nested l) : l.countP isRet = l.countP isCall := by
  induction h with
  | nil => rfl
  | other hcall hret _ ih => simp [hcall, hret, ih]
  | subroutine target _ _ ihbody ihrest =>
    simp only [List.countP_cons, List.countP_append, ihbody, ihrest, isRet, isCall, ↓reduceIte,
      Bool.false_eq_true]
    omega

/-- At no point are there more returns than calls. -/
theorem Nested.countP_le (h : Nested l) {first : List (Instruction ρ)} (hfirst : first <+: l) :
    first.countP isRet ≤ first.countP isCall := by
  induction h generalizing first with
  | nil =>
    rw [List.prefix_nil.mp hfirst]
    rfl
  | other hcall hret _ ih =>
    rcases List.prefix_cons_iff.mp hfirst with rfl | ⟨tail, rfl, htail⟩
    · rfl
    · simpa [hcall, hret] using ih htail
  | @subroutine target body rest hbody _ ihbody ihrest =>
    rcases List.prefix_cons_iff.mp hfirst with rfl | ⟨tail, rfl, htail⟩
    · rfl
    · rcases List.prefix_or_prefix_of_prefix htail (List.prefix_append body _) with hin | hout
      · have := ihbody hin
        simp only [List.countP_cons, isRet, isCall, ↓reduceIte, Bool.false_eq_true]
        omega
      · obtain ⟨behind, rfl⟩ := hout
        have hbehind := (List.prefix_append_right_inj body).mp htail
        have hbalance := hbody.countP_eq
        rcases List.prefix_cons_iff.mp hbehind with rfl | ⟨last, rfl, hlast⟩
        · simp only [List.append_nil, List.countP_cons, isRet, isCall, ↓reduceIte,
            Bool.false_eq_true]
          omega
        · have := ihrest hlast
          simp only [List.countP_cons, List.countP_append, isRet, isCall, ↓reduceIte,
            Bool.false_eq_true]
          omega

/-- Every return of a nested sequence has a call before it, with a nested sequence in between. -/
theorem Nested.own_call (h : Nested l) {before after : List (Instruction ρ)}
    (heq : l = before ++ ret :: after) :
    ∃ outer target body, before = outer ++ call target :: body ∧ Nested body := by
  induction h generalizing before after with
  | nil => simp at heq
  | @other instruction rest hcall hret _ ih =>
    rcases List.cons_eq_append_iff.mp heq with ⟨rfl, hhead⟩ | ⟨tail, rfl, hrest⟩
    · cases hhead
      cases hret
    · obtain ⟨outer, target, body, rfl, hbody⟩ := ih hrest
      exact ⟨instruction :: outer, target, body, rfl, hbody⟩
  | @subroutine target body rest hbody _ ihbody ihrest =>
    rcases List.cons_eq_append_iff.mp heq with ⟨rfl, hhead⟩ | ⟨tail, rfl, hrest⟩
    · cases hhead
    · rcases List.append_eq_append_iff.mp hrest with ⟨behind, rfl, hbehind⟩ | ⟨inside, rfl, hinside⟩
      · rcases List.cons_eq_append_iff.mp hbehind with ⟨rfl, -⟩ | ⟨later, rfl, hlater⟩
        · exact ⟨[], target, body, by simp, hbody⟩
        · obtain ⟨outer, target', body', rfl, hbody'⟩ := ihrest hlater
          exact ⟨call target :: (body ++ ret :: outer), target', body', by simp, hbody'⟩
      · rcases List.cons_eq_append_iff.mp hinside with ⟨rfl, -⟩ | ⟨later, rfl, hlater⟩
        · exact ⟨[], target, tail, rfl, by simpa using hbody⟩
        · obtain ⟨outer, target', body', rfl, hbody'⟩ := ihbody rfl
          exact ⟨call target :: outer, target', body', rfl, hbody'⟩

end Instruction

namespace Machine

variable {m : Machine} {held : HeldKeys} {op : Op}

/-! ## One operation -/

/-- What an operation does to the list of return addresses. -/
inductive Move (m : Machine) (held : HeldKeys) (op : Op) : Prop where
  /-- The list stays as it is. -/
  | stays
      (performs : ∀ instruction ∈ m.instruction? held op,
        instruction.isCall = false ∧ instruction.isRet = false)
      (live_eq : (m.operate held op).machine.state.calls.live = m.state.calls.live)
  /-- A call puts its own place at the end. -/
  | enters (target : UInt16) (is_step : op = .step)
      (performs : m.instruction? held op = some (.call target))
      (live_eq : (m.operate held op).machine.state.calls.live = m.state.calls.live ++ [m.state.pc])
  /-- A return takes the last place off and goes on behind it. -/
  | leaves (back : UInt16) (is_step : op = .step) (performs : m.instruction? held op = some .ret)
      (live_eq : m.state.calls.live = (m.operate held op).machine.state.calls.live ++ [back])
      (pc_eq : (m.operate held op).machine.state.pc = back + 2)

theorem move_step (hd : m.state.calls.depth ≤ 32) (held : HeldKeys) : m.Move held .step := by
  cases h : m.instruction? held .step with
  | none =>
    refine .stays (by simp [h]) ?_
    rw [machine_operate_step, machine_step_of_no_instruction h]
  | some instruction =>
    have after_eq : (m.operate held .step).machine = m.advanced held instruction :=
      machine_step_of_instruction? h
    have hf := (instruction?_step_eq_some_iff.mp h).2.2
    rcases instruction.ret_or_call with rfl | ⟨target, rfl⟩ | ⟨hr, hc⟩
    · have open_call : m.state.calls.depth ≠ 0 := by
        intro empty
        simp [State.fault?, empty] at hf
      refine .leaves _ rfl h ?_ (congrArg (·.state.pc) after_eq)
      rw [after_eq]
      exact CallStack.live_pop hd open_call
    · have not_full : m.state.calls.depth < 32 := by
        by_contra full
        simp [State.fault?, Nat.le_of_not_lt full] at hf
      refine .enters target rfl h ?_
      rw [after_eq]
      exact CallStack.live_push not_full m.state.pc
    · refine .stays ?_ ?_
      · intro other hother
        rw [h, Option.mem_some] at hother
        subst hother
        cases instruction with
        | ret => exact absurd rfl hr
        | call target => exact absurd rfl (hc target)
        | _ => exact ⟨rfl, rfl⟩
      · rw [after_eq]
        exact congrArg CallStack.live (State.callsAfter_of_ne hr hc)

theorem move (hd : m.state.calls.depth ≤ 32) (held : HeldKeys) (hop : op.IsRunning) :
    m.Move held op := by
  cases op with
  | load image => cases hop
  | read outcomes => cases hop
  | execute w => cases hop
  | reset => cases hop
  | step => exact move_step hd held
  | tick => exact .stays (by simp [instruction?]) rfl
  | hear key =>
    refine .stays (by simp [instruction?]) ?_
    change (m.state.hear key).calls.live = m.state.calls.live
    unfold State.hear
    split <;> rfl
  | takeFrame =>
    refine .stays (by simp [instruction?]) ?_
    change m.takeFrame.2.state.calls.live = m.state.calls.live
    unfold takeFrame
    split <;> rfl

theorem Sound.length_live (h : m.Sound) : m.state.calls.live.length = m.state.calls.depth :=
  CallStack.length_live h.depth_le

/-- The depth counts the call or the return of an operation. -/
theorem depth_operate (h : m.Sound) (held : HeldKeys) (hop : op.IsRunning) :
    (m.operate held op).machine.state.calls.depth +
        (m.instruction? held op).toList.countP Instruction.isRet =
      m.state.calls.depth + (m.instruction? held op).toList.countP Instruction.isCall := by
  have before := h.length_live
  have after := (sound_operate h held op).length_live
  cases move h.depth_le held hop with
  | stays performs live_eq =>
    rw [live_eq] at after
    cases hi : m.instruction? held op with
    | none => simp; omega
    | some instruction =>
      obtain ⟨hcall, hret⟩ := performs instruction hi
      simp [hcall, hret]
      omega
  | enters target _ performs live_eq =>
    rw [live_eq, List.length_append] at after
    simp [performs, Instruction.isCall, Instruction.isRet] at after ⊢
    omega
  | leaves back _ performs live_eq _ =>
    rw [live_eq, List.length_append] at before
    simp [performs, Instruction.isCall, Instruction.isRet] at before ⊢
    omega

/-- What lies on the list stays there as long as the list is longer. -/
theorem frames_operate (h : m.Sound) (held : HeldKeys) (hop : op.IsRunning) {frames : List UInt16}
    (hframes : frames <+: m.state.calls.live)
    (hne : (m.operate held op).machine.state.calls.depth + 1 ≠ frames.length) :
    frames <+: (m.operate held op).machine.state.calls.live := by
  cases move h.depth_le held hop with
  | stays _ live_eq =>
    rw [live_eq]
    exact hframes
  | enters target _ _ live_eq =>
    rw [live_eq]
    exact hframes.trans (List.prefix_append _ _)
  | leaves back _ _ live_eq _ =>
    rw [live_eq] at hframes
    rcases List.prefix_concat_iff.mp hframes with whole | below
    · have after := (sound_operate h held op).length_live
      rw [whole, List.length_append, after] at hne
      exact absurd rfl hne
    · exact below

/-- An operation that brings the list down to some frames, with one more on it before, is the
    return to that one. -/
theorem return_of_frames (h : m.Sound) (hop : op.IsRunning) {frames : List UInt16} {back : UInt16}
    (hframes : frames ++ [back] <+: m.state.calls.live)
    (hdepth : (m.operate held op).machine.state.calls.depth = frames.length) :
    op = .step ∧ m.instruction? held op = some .ret ∧
      (m.operate held op).machine.state.pc = back + 2 ∧
      (m.operate held op).machine.state.calls.live = frames := by
  have after := (sound_operate h held op).length_live
  have longer := hframes.length_le
  rw [List.length_append, List.length_singleton] at longer
  cases move h.depth_le held hop with
  | stays _ live_eq =>
    rw [live_eq] at after
    omega
  | enters target _ _ live_eq =>
    rw [live_eq, List.length_append] at after
    omega
  | leaves last is_step performs live_eq pc_eq =>
    rw [live_eq] at hframes
    have same := hframes.eq_of_length (by simp [after, hdepth])
    obtain ⟨frames_eq, back_eq⟩ := List.append_inj' same rfl
    cases back_eq
    exact ⟨is_step, performs, pc_eq, frames_eq.symm⟩

/-! ## Runs -/

/-- The depth counts the calls less the returns of a run. -/
theorem depth_run (h : m.Sound) (ops : List (HeldKeys × Op)) (hops : Running ops) :
    (m.run ops).state.calls.depth + (m.trace ops).countP Instruction.isRet =
      m.state.calls.depth + (m.trace ops).countP Instruction.isCall := by
  induction ops generalizing m with
  | nil => rfl
  | cons entry rest ih =>
    obtain ⟨held, op⟩ := entry
    obtain ⟨hop, hrest⟩ := hops.of_cons
    have first := depth_operate h held hop
    have later := ih (sound_operate h held op) hrest
    rw [run_cons]
    simp only [trace, List.countP_append]
    omega

/-- What lies on the list stays there through a run that never comes down to it. -/
theorem frames_run (h : m.Sound) (ops : List (HeldKeys × Op)) (hops : Running ops)
    {frames : List UInt16} (hframes : frames <+: m.state.calls.live)
    (hne : ∀ first, first <+: ops → (m.run first).state.calls.depth + 1 ≠ frames.length) :
    frames <+: (m.run ops).state.calls.live := by
  induction ops generalizing m with
  | nil => exact hframes
  | cons entry rest ih =>
    obtain ⟨held, op⟩ := entry
    obtain ⟨hop, hrest⟩ := hops.of_cons
    have first := frames_operate h held hop hframes (hne [(held, op)] (by simp))
    refine ih (sound_operate h held op) hrest first ?_
    intro later hlater
    exact hne ((held, op) :: later) (List.cons_prefix_cons.mpr ⟨rfl, hlater⟩)

theorem Sound.run (h : m.Sound) (ops : List (HeldKeys × Op)) : (m.run ops).Sound := by
  induction ops generalizing m with
  | nil => exact h
  | cons entry rest ih => exact ih (sound_operate h entry.1 entry.2)

/-! ## A call and its return -/

/-- Behind a call, the first operation that is back at the depth of the call is the return from
    it. -/
theorem return_of_call (h : m.Sound) {target : UInt16}
    (hcall : m.instruction? held .step = some (.call target))
    {during : List (HeldKeys × Op)} (hduring : Running during) {held' : HeldKeys}
    (hop : op.IsRunning)
    (hdeep : ∀ first, first <+: during →
      ((m.step held).machine.run first).state.calls.depth ≠ m.state.calls.depth)
    (hback : (((m.step held).machine.run during).operate held' op).machine.state.calls.depth =
      m.state.calls.depth) :
    op = .step ∧ ((m.step held).machine.run during).instruction? held' op = some .ret ∧
      (((m.step held).machine.run during).operate held' op).machine.state.pc = m.state.pc + 2 ∧
      (((m.step held).machine.run during).operate held' op).machine.state.calls.live =
        m.state.calls.live := by
  have called : (m.step held).machine.state.calls.live = m.state.calls.live ++ [m.state.pc] := by
    cases move_step h.depth_le held with
    | enters _ _ _ live_eq => exact live_eq
    | stays performs _ => cases (performs _ hcall).1
    | leaves _ _ performs _ _ => rw [hcall] at performs; cases performs
  have sound : (m.step held).machine.Sound := sound_step h held
  have frames : m.state.calls.live ++ [m.state.pc] <+:
      ((m.step held).machine.run during).state.calls.live := by
    refine frames_run sound during hduring (called ▸ List.prefix_rfl) fun first hfirst => ?_
    rw [List.length_append, List.length_singleton, h.length_live]
    exact fun same => hdeep first hfirst (Nat.succ.inj same)
  exact return_of_frames (sound.run during) hop frames (hback.trans h.length_live.symm)

/-- A return goes back behind the call that it is properly nested with. -/
theorem return_of_nested (h : m.Sound) {target : UInt16}
    (hcall : m.instruction? held .step = some (.call target))
    {during : List (HeldKeys × Op)} (hduring : Running during)
    (hnested : Instruction.Nested ((m.step held).machine.trace during)) {held' : HeldKeys}
    (hret : ((m.step held).machine.run during).instruction? held' .step = some .ret) :
    (((m.step held).machine.run during).step held').machine.state.pc = m.state.pc + 2 ∧
      (((m.step held).machine.run during).step held').machine.state.calls.live =
        m.state.calls.live := by
  have sound : (m.step held).machine.Sound := sound_step h held
  have entered : (m.step held).machine.state.calls.depth = m.state.calls.depth + 1 := by
    have counted := depth_operate h held (show Op.IsRunning .step from trivial)
    simpa [hcall, Instruction.isCall, Instruction.isRet, machine_operate_step] using counted
  have deep : ∀ first, first <+: during →
      ((m.step held).machine.run first).state.calls.depth ≠ m.state.calls.depth := by
    rintro first ⟨later, rfl⟩
    have counted := depth_run sound first hduring.of_append.1
    have hfirst : (m.step held).machine.trace first <+:
        (m.step held).machine.trace (first ++ later) := by
      rw [trace_append]
      exact List.prefix_append _ _
    have balanced := hnested.countP_le hfirst
    omega
  have left : (((m.step held).machine.run during).operate held' .step).machine.state.calls.depth =
      m.state.calls.depth := by
    have counted := depth_run sound during hduring
    have balanced := hnested.countP_eq
    have returned := depth_operate (sound.run during) held' (show Op.IsRunning .step from trivial)
    simp only [hret, Option.toList_some, List.countP_cons, List.countP_nil, Instruction.isCall,
      Instruction.isRet, ↓reduceIte, Bool.false_eq_true] at returned
    omega
  exact (return_of_call h hcall hduring (show Op.IsRunning .step from trivial) deep left).2.2

/-- In a properly nested run, every return goes back behind a call before it, and what is performed
    in between is properly nested. -/
theorem exists_call_of_return (h : m.Sound) {first second : List (HeldKeys × Op)}
    {held' : HeldKeys} (hops : Running (first ++ (held', .step) :: second))
    (hnested : Instruction.Nested (m.trace (first ++ (held', .step) :: second)))
    (hret : (m.run first).instruction? held' .step = some .ret) :
    ∃ before held target during, first = before ++ (held, .step) :: during ∧
      (m.run before).instruction? held .step = some (.call target) ∧
      Instruction.Nested (((m.run before).step held).machine.trace during) ∧
      ((m.run first).step held').machine.state.pc = (m.run before).state.pc + 2 ∧
      ((m.run first).step held').machine.state.calls.live = (m.run before).state.calls.live := by
  have hfirst := hops.of_append.1
  have trace_eq : m.trace (first ++ (held', .step) :: second) =
      m.trace first ++ .ret :: ((m.run first).step held').machine.trace second := by
    simp [trace_append, trace, hret, machine_operate_step]
  obtain ⟨outer, target, body, hbefore, hbody⟩ := hnested.own_call trace_eq
  obtain ⟨before, held, during, rfl, -, hcall, rfl⟩ := exists_of_trace_eq hfirst hbefore
  have hduring := hfirst.of_append.2.of_cons.2
  rw [run_append, run_cons, machine_operate_step] at hret ⊢
  obtain ⟨pc_eq, live_eq⟩ := return_of_nested (h.run before) hcall hduring hbody hret
  exact ⟨before, held, target, during, rfl, hcall, hbody, pc_eq, live_eq⟩

/-- **Main theorem.** On a machine left to its program, the depth of the call stack is the number
    of calls less that of returns, and at most thirty-two; the first operation back at the depth of
    a call is the return from it, to just behind it, and with the outer frames as they were; every
    return of a properly nested run has its own call; and a call or a return fails in one way
    only. -/
theorem calls_return {m : Machine} (h : m.Reachable) :
    (∀ ops, Running ops →
      (m.run ops).state.calls.depth + (m.trace ops).countP Instruction.isRet =
          m.state.calls.depth + (m.trace ops).countP Instruction.isCall ∧
        (m.run ops).state.calls.depth ≤ 32) ∧
    (∀ held target during held' op, m.instruction? held .step = some (.call target) →
      Running during → op.IsRunning →
      (∀ first, first <+: during →
        ((m.step held).machine.run first).state.calls.depth ≠ m.state.calls.depth) →
      let inside := (m.step held).machine.run during
      let after := (inside.operate held' op).machine
      after.state.calls.depth = m.state.calls.depth →
        op = .step ∧ inside.instruction? held' op = some .ret ∧
          after.state.pc = m.state.pc + 2 ∧ after.state.calls.live = m.state.calls.live) ∧
    (∀ first held' second, Running (first ++ (held', .step) :: second) →
      Instruction.Nested (m.trace (first ++ (held', .step) :: second)) →
      (m.run first).instruction? held' .step = some .ret →
      ∃ before held target during, first = before ++ (held, .step) :: during ∧
        (m.run before).instruction? held .step = some (.call target) ∧
        Instruction.Nested (((m.run before).step held).machine.trace during) ∧
        ((m.run first).step held').machine.state.pc = (m.run before).state.pc + 2 ∧
        ((m.run first).step held').machine.state.calls.live = (m.run before).state.calls.live) ∧
    (∀ held target fault, m.state.isWaiting = false →
      Instruction.ofWord? m.state.fetch = some (.call target) →
      ((m.step held).result = .error fault ↔
        m.state.calls.depth = 32 ∧ fault = .stackOverflow 32)) ∧
    ∀ held fault, m.state.isWaiting = false → Instruction.ofWord? m.state.fetch = some .ret →
      ((m.step held).result = .error fault ↔
        m.state.calls.depth = 0 ∧ fault = .stackUnderflow) := by
  have sound := h.sound
  refine ⟨?_, ?_, ?_, ?_, ?_⟩
  · exact fun ops hops => ⟨depth_run sound ops hops, (sound.run ops).depth_le⟩
  · intro held target during held' op hcall hduring hop hdeep inside after hback
    exact return_of_call sound hcall hduring hop hdeep hback
  · exact fun first held' second hops hnested hret => exists_call_of_return sound hops hnested hret
  · intro held target fault hwait hw
    rw [step_error_iff, execute_eq_error_iff sound.depth_le, failure?_of_call hwait hw]
    simp [hwait]
  · intro held fault hwait hw
    rw [step_error_iff, execute_eq_error_iff sound.depth_le, failure?_of_ret hwait hw]
    simp [hwait]

/-- A program that calls a subroutine, which returns at once. -/
theorem calls_return_of_subroutine :
    let m := (new (.ofBytes #[])).run [(.allUp, .load #[0x22, 0x04, 0x00, 0x00, 0x00, 0xEE])]
    let inside := (m.step .allUp).machine.run [(.allUp, .tick)]
    m.Reachable ∧ m.instruction? .allUp .step = some (.call 0x204) ∧
      inside.state.calls.live = [0x200] ∧ inside.instruction? .allUp .step = some .ret ∧
      (inside.operate .allUp .step).machine.state.pc = 0x202 ∧
      (inside.operate .allUp .step).machine.state.calls.live = [] := by
  intro m inside
  have reachable : m.Reachable := Reachable.run (.new (.ofBytes _)) _
  have word_call : m.state.fetch = 0x2204 := by
    have left : m.state.memory.peek 0x200 = 0x22 := Vector.getElem_ofFn _
    have right : m.state.memory.peek 0x201 = 0x04 := Vector.getElem_ofFn _
    exact Memory.word_of_peek left right
  have hcall : m.instruction? .allUp .step = some (.call 0x204) := by
    rw [instruction?_step_eq_some_iff, word_call]
    exact ⟨rfl, by decide, rfl⟩
  have entered := machine_step_of_instruction? hcall
  have inside_eq : inside = (m.advanced .allUp (.call 0x204)).tick := by
    change (m.step .allUp).machine.tick = _
    rw [entered]
  have word_ret : inside.state.fetch = 0x00EE := by
    have left : m.state.memory.peek 0x204 = 0x00 := Vector.getElem_ofFn _
    have right : m.state.memory.peek 0x205 = 0xEE := Vector.getElem_ofFn _
    rw [inside_eq]
    exact Memory.word_of_peek left right
  have hret : inside.instruction? .allUp .step = some .ret := by
    rw [instruction?_step_eq_some_iff, word_ret, inside_eq]
    exact ⟨rfl, by decide, rfl⟩
  have left_eq : (inside.operate .allUp .step).machine = inside.advanced .allUp .ret :=
    (machine_operate_step inside .allUp).trans (machine_step_of_instruction? hret)
  have deep : ∀ first, first <+: [(HeldKeys.allUp, Op.tick)] →
      ((m.step .allUp).machine.run first).state.calls.depth ≠ m.state.calls.depth := by
    rw [entered]
    intro first hfirst
    rcases List.prefix_cons_iff.mp hfirst with rfl | ⟨tail, rfl, htail⟩
    · exact Nat.one_ne_zero
    · rw [List.prefix_nil.mp htail]
      exact Nat.one_ne_zero
  have shallow : (inside.operate .allUp .step).machine.state.calls.depth = m.state.calls.depth := by
    rw [left_eq, inside_eq]
    rfl
  obtain ⟨-, -, pc_eq, live_eq⟩ := (calls_return reachable).2.1 .allUp 0x204 [(.allUp, .tick)]
    .allUp .step hcall (List.forall_mem_singleton.mpr trivial) trivial deep shallow
  exact ⟨reachable, hcall, by rw [inside_eq]; rfl, hret, pc_eq, live_eq⟩

end Machine

end Chip8
