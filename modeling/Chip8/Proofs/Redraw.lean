import Chip8.Proofs.Trace
import Mathlib.Data.List.Induction

/-!
# Frames

A display shows the screen that `takeFrame` last handed out. A machine hands its screen out only if
it is marked as drawn on, and the two instructions that draw are the only ones to mark it. A reset
blanks the screen and takes the mark away, so a display goes on showing what was lit before until
the program draws again.

* `Machine.shown`: the screen that was last handed out in a run.
* `Machine.Stale`: the runs that have a reset behind them which the display has not heard of.
* `marked_run`: the mark tells of every other difference between the screen and the one shown.
-/

namespace Chip8

/-! ## Instructions that draw -/

namespace State

variable {s : State} {byte : UInt8} {instruction : Instruction Register}

/-- What draws marks the screen. -/
theorem redraw_effect (h : instruction.draws = true) :
    (s.effect byte instruction).redraw = true := by
  cases instruction with
  | clear => rfl
  | draw x y n => rfl
  | _ => cases h

/-- What does not draw leaves the screen and its mark alone. -/
theorem screen_effect (h : instruction.draws = false) :
    (s.effect byte instruction).screen = s.screen ∧
      (s.effect byte instruction).redraw = s.redraw := by
  cases instruction with
  | clear => cases h
  | draw x y n => cases h
  | combine op x y =>
    obtain ⟨v, hv⟩ := s.exists_combine op x y
    simp [effect, hv]
  | loadRegisters x => simp [effect, loadRegisters, advanceIndex]
  | _ => exact ⟨rfl, rfl⟩

end State

/-- The screen that an operation hands out, if it hands one out. -/
def Outcome.frame? (outcome : Outcome Machine.Gain) : Option Screen :=
  match outcome.result with
  | .ok (.frame screen) => screen
  | .ok .nothing | .ok (.loaded _) | .error _ => none

namespace Machine

variable {m : Machine} {held : HeldKeys} {op : Op}

/-! ## One operation -/

theorem frame?_map {α : Type} (outcome : Outcome α) {gain : α → Gain}
    (hgain : ∀ a screen, gain a ≠ .frame screen) : (outcome.map gain).frame? = none := by
  unfold Outcome.frame? Outcome.map
  cases outcome.result with
  | error fault => rfl
  | ok a =>
    cases hg : gain a with
    | frame screen => exact absurd hg (hgain a screen)
    | _ => simp [Except.map, hg]

/-- Only the taking of a frame hands a screen out. -/
theorem frame?_operate (hop : op ≠ .takeFrame) : (m.operate held op).frame? = none := by
  cases op with
  | takeFrame => exact absurd rfl hop
  | load image => exact frame?_map (m.load image) (by simp)
  | read outcomes => exact frame?_map (m.read outcomes) (by simp)
  | execute w => exact frame?_map (m.execute held w) (by simp)
  | step => exact frame?_map (m.step held) (by simp)
  | _ => rfl

/-- An operation that draws marks the screen. -/
theorem redraw_operate {instruction : Instruction Register}
    (h : m.instruction? held op = some instruction) (hdraws : instruction.draws = true) :
    (m.operate held op).machine.state.redraw = true := by
  obtain ⟨pc, calls, heq⟩ := exists_of_instruction? h
  rw [heq]
  exact State.redraw_effect hdraws

/-- The screen and its mark change by drawing, by a reset and by the taking of a frame only. -/
theorem screen_operate (hreset : op ≠ .reset) (htake : op ≠ .takeFrame)
    (hquiet : ∀ instruction ∈ m.instruction? held op, instruction.draws = false) :
    (m.operate held op).machine.state.screen = m.state.screen ∧
      (m.operate held op).machine.state.redraw = m.state.redraw := by
  cases hi : m.instruction? held op with
  | some instruction =>
    obtain ⟨pc, calls, heq⟩ := exists_of_instruction? hi
    rw [heq]
    exact State.screen_effect (hquiet instruction hi)
  | none =>
    cases op with
    | execute w =>
      have same : (m.operate held (.execute w)).machine = m := machine_execute_of_not_executed hi
      rw [same]
      exact ⟨rfl, rfl⟩
    | step =>
      have same : (m.operate held .step).machine = m := machine_step_of_no_instruction hi
      rw [same]
      exact ⟨rfl, rfl⟩
    | read outcomes =>
      change (m.read outcomes).machine.state.screen = _ ∧ (m.read outcomes).machine.state.redraw = _
      unfold read
      split <;> exact ⟨rfl, rfl⟩
    | hear key =>
      change (m.state.hear key).screen = _ ∧ (m.state.hear key).redraw = _
      unfold State.hear
      split <;> exact ⟨rfl, rfl⟩
    | reset => exact absurd rfl hreset
    | takeFrame => exact absurd rfl htake
    | load image => exact ⟨rfl, rfl⟩
    | tick => exact ⟨rfl, rfl⟩

/-! ## Runs -/

/-- The screen that was last handed out in a run; the blank one if there was none. -/
def shown (m : Machine) (ops : List (HeldKeys × Op)) : Screen :=
  ((m.outcomes ops).filterMap Outcome.frame?).getLast?.getD .blank

/-- The runs with a reset in them that found a lit screen shown, and no drawing after it. -/
def Stale (m : Machine) (ops : List (HeldKeys × Op)) : Prop :=
  ∃ before held after, ops = before ++ (held, .reset) :: after ∧ m.shown before ≠ .blank ∧
    ∀ instruction ∈ (m.run (before ++ [(held, .reset)])).trace after, instruction.draws = false

theorem outcomes_append (m : Machine) (first second : List (HeldKeys × Op)) :
    m.outcomes (first ++ second) = m.outcomes first ++ (m.run first).outcomes second := by
  induction first generalizing m with
  | nil => rfl
  | cons entry rest ih => exact congrArg _ (ih _)

/-- What is shown after one more operation. -/
theorem shown_concat (m : Machine) (ops : List (HeldKeys × Op)) (held : HeldKeys) (op : Op) :
    m.shown (ops ++ [(held, op)]) =
      ((m.run ops).operate held op).frame?.getD (m.shown ops) := by
  have last : (m.run ops).outcomes [(held, op)] = [(m.run ops).operate held op] := rfl
  unfold shown
  rw [outcomes_append, last, List.filterMap_append]
  cases h : ((m.run ops).operate held op).frame? with
  | none => simp [h]
  | some screen => simp [h]

/-- A run is stale after one more operation if that is a reset of a lit display, or if it was stale
    before and the operation does not draw. -/
theorem stale_concat {ops : List (HeldKeys × Op)} :
    m.Stale (ops ++ [(held, op)]) ↔
      (op = .reset ∧ m.shown ops ≠ .blank) ∨
        (m.Stale ops ∧
          ∀ instruction ∈ (m.run ops).instruction? held op, instruction.draws = false) := by
  have trace_concat (before after : List (HeldKeys × Op)) (h : HeldKeys) :
      (m.run (before ++ [(h, .reset)])).trace (after ++ [(held, op)]) =
        (m.run (before ++ [(h, .reset)])).trace after ++
          ((m.run (before ++ (h, .reset) :: after)).instruction? held op).toList := by
    rw [trace_append, ← run_append, List.append_assoc, List.singleton_append]
    simp [trace]
  constructor
  · rintro ⟨before, held', after, heq, hlit, hquiet⟩
    rcases List.eq_nil_or_concat after with rfl | ⟨after, last, rfl⟩
    · obtain ⟨rfl, hlast⟩ := List.append_inj' heq rfl
      cases hlast
      exact .inl ⟨rfl, hlit⟩
    · rw [List.concat_eq_append, ← List.cons_append, ← List.append_assoc] at heq
      obtain ⟨rfl, hlast⟩ := List.append_inj' heq rfl
      cases hlast
      rw [List.concat_eq_append, trace_concat, List.forall_mem_append] at hquiet
      refine .inr ⟨⟨before, held', after, rfl, hlit, hquiet.1⟩, ?_⟩
      intro instruction hi
      exact hquiet.2 instruction (Option.mem_toList.mpr hi)
  · rintro (⟨rfl, hlit⟩ | ⟨⟨before, held', after, rfl, hlit, hquiet⟩, hlast⟩)
    · refine ⟨ops, held, [], rfl, hlit, ?_⟩
      intro instruction hi
      cases hi
    · refine ⟨before, held', after ++ [(held, op)], by simp, hlit, ?_⟩
      rw [trace_concat, List.forall_mem_append]
      exact ⟨hquiet, fun instruction hi => hlast instruction (Option.mem_toList.mp hi)⟩

/-- What the mark says of the screen and of the one that is shown. -/
structure Marked (m : Machine) (shown : Screen) (stale : Prop) : Prop where
  /-- Without the mark the display shows the screen, unless it is stale. -/
  shown_of_unmarked : m.state.redraw = false → m.state.screen = shown ∨ stale
  /-- A stale display is lit, while the screen is blank and without the mark. -/
  of_stale : stale → m.state.redraw = false ∧ m.state.screen = .blank ∧ shown ≠ .blank

/-- Drawing marks the screen, and nothing is stale. -/
theorem marked_draw {shown : Screen} {instruction : Instruction Register}
    (hi : m.instruction? held op = some instruction) (hdraws : instruction.draws = true) :
    (m.operate held op).machine.Marked shown False where
  shown_of_unmarked unmarked := by
    rw [redraw_operate hi hdraws] at unmarked
    cases unmarked
  of_stale := False.elim

section Marked

variable {shown : Screen} {stale : Prop} (h : m.Marked shown stale) (held : HeldKeys)

include h

/-- A reset leaves a display stale that is lit. -/
theorem Marked.reset : (m.operate held .reset).machine.Marked shown (shown ≠ .blank ∨ stale) where
  shown_of_unmarked _ := by
    by_cases hlit : shown = .blank
    · exact .inl hlit.symm
    · exact .inr (.inl hlit)
  of_stale := by
    rintro (hlit | hstale)
    · exact ⟨rfl, rfl, hlit⟩
    · exact ⟨rfl, rfl, (h.of_stale hstale).2.2⟩

/-- The taking of a frame changes nothing if the screen has no mark. -/
theorem Marked.takeFrame :
    (m.operate held .takeFrame).machine.Marked
      ((m.operate held .takeFrame).frame?.getD shown) stale := by
  change m.takeFrame.2.Marked (m.takeFrame.1.getD shown) stale
  unfold Machine.takeFrame
  cases hmark : m.state.redraw with
  | true =>
    refine ⟨fun _ => .inl rfl, fun hstale => ?_⟩
    rw [(h.of_stale hstale).1] at hmark
    cases hmark
  | false => exact h

/-- Operations of other kinds change neither the screen nor the mark. -/
theorem Marked.quiet (hreset : op ≠ .reset) (htake : op ≠ .takeFrame)
    (hquiet : ∀ instruction ∈ m.instruction? held op, instruction.draws = false) :
    (m.operate held op).machine.Marked shown stale := by
  obtain ⟨screen_eq, mark_eq⟩ := screen_operate hreset htake hquiet
  refine ⟨fun unmarked => ?_, fun hstale => ?_⟩
  · rw [mark_eq] at unmarked
    rw [screen_eq]
    exact h.shown_of_unmarked unmarked
  · rw [mark_eq, screen_eq]
    exact h.of_stale hstale

/-- Every operation leaves the mark truthful. -/
theorem Marked.operate (op : Op) :
    (m.operate held op).machine.Marked ((m.operate held op).frame?.getD shown)
      ((op = .reset ∧ shown ≠ .blank) ∨
        (stale ∧ ∀ instruction ∈ m.instruction? held op, instruction.draws = false)) := by
  have instructionless (hop : m.instruction? held op = none) :
      ∀ instruction ∈ m.instruction? held op, instruction.draws = false := by
    intro instruction hi
    rw [hop] at hi
    cases hi
  by_cases hreset : op = .reset
  · subst hreset
    rw [frame?_operate (by simp), and_iff_right rfl, and_iff_left (instructionless rfl)]
    exact h.reset held
  rw [or_iff_right fun both => hreset both.1]
  by_cases htake : op = .takeFrame
  · subst htake
    rw [and_iff_left (instructionless rfl)]
    exact h.takeFrame held
  rw [frame?_operate htake]
  by_cases hdraws : ∃ instruction ∈ m.instruction? held op, instruction.draws = true
  · obtain ⟨instruction, hi, hdraw⟩ := hdraws
    have loud : ¬ (stale ∧ ∀ other ∈ m.instruction? held op, other.draws = false) := by
      rintro ⟨-, quiet⟩
      rw [quiet instruction hi] at hdraw
      cases hdraw
    rw [eq_false loud]
    exact marked_draw hi hdraw
  · have quiet : ∀ instruction ∈ m.instruction? held op, instruction.draws = false := by
      intro instruction hi
      exact Bool.eq_false_iff.mpr fun hdraw => hdraws ⟨instruction, hi, hdraw⟩
    rw [and_iff_left quiet]
    exact h.quiet held hreset htake quiet

end Marked

/-- The mark is truthful throughout every run of a new machine. -/
theorem marked_run (source : ByteSource) (ops : List (HeldKeys × Op)) :
    ((new source).run ops).Marked ((new source).shown ops) ((new source).Stale ops) := by
  induction ops using List.reverseRecOn with
  | nil =>
    refine ⟨fun _ => .inl rfl, ?_⟩
    rintro ⟨before, held, after, heq, -⟩
    simp at heq
  | append_singleton ops entry ih =>
    obtain ⟨held, op⟩ := entry
    have next := ih.operate held op
    rw [← shown_concat, ← stale_concat] at next
    rw [run_append]
    exact next

/-- **Main theorem.** A frame that is taken is the screen. None is handed out although the display
    shows another screen just if there was a reset while the display was lit, and no drawing
    since. -/
theorem frame_missed_iff (source : ByteSource) (ops : List (HeldKeys × Op)) :
    let m := (new source).run ops
    (∀ screen, m.takeFrame.1 = some screen → screen = m.state.screen) ∧
      (m.takeFrame.1 = none ∧ m.state.screen ≠ (new source).shown ops ↔
        ∃ before held after, ops = before ++ (held, .reset) :: after ∧
          (new source).shown before ≠ .blank ∧
          ∀ instruction ∈ ((new source).run (before ++ [(held, .reset)])).trace after,
            instruction.draws = false) := by
  intro m
  have marked := marked_run source ops
  have taken : m.takeFrame.1 = if m.state.redraw then some m.state.screen else none := by
    unfold takeFrame
    split <;> rfl
  rw [taken]
  constructor
  · intro screen hscreen
    split at hscreen
    · exact (Option.some.inj hscreen).symm
    · cases hscreen
  · change _ ↔ (new source).Stale ops
    constructor
    · rintro ⟨hnone, hother⟩
      have unmarked : m.state.redraw = false := by
        cases hmark : m.state.redraw with
        | false => rfl
        | true => simp [hmark] at hnone
      exact (marked.shown_of_unmarked unmarked).resolve_left hother
    · intro hstale
      obtain ⟨unmarked, dark, lit⟩ := marked.of_stale hstale
      refine ⟨by simp [m, unmarked], ?_⟩
      change ((new source).run ops).state.screen ≠ _
      rw [dark]
      exact lit.symm

/-- A machine that shows the top of a glyph and is then reset hands out no frame, so the glyph
    stays on the display. -/
theorem not_forall_frame_of_reset :
    ¬ ∀ (source : ByteSource) (ops : List (HeldKeys × Op)),
      ((new source).run ops).state.screen ≠ (new source).shown ops →
        ((new source).run ops).takeFrame.1 = some ((new source).run ops).state.screen := by
  intro always
  let m := new (.ofBytes #[])
  let drawing : List (HeldKeys × Op) := [(.allUp, .execute 0xD001)]
  let ops := (drawing ++ [(.allUp, .takeFrame)]) ++ [(.allUp, .reset)]
  have drawn : m.executed? .allUp 0xD001 = some (.draw 0 0 1) :=
    executed?_eq_some_iff.mpr ⟨rfl, by decide, rfl⟩
  have after : (m.run drawing).state.screen = (Screen.blank.paintSprite 0 0 [0xF0]).1 := by
    have glyph : Memory.initial.peek 0 = 0xF0 := Vector.getElem_ofFn _
    change (m.execute .allUp 0xD001).machine.state.screen = _
    rw [machine_execute_of_executed? drawn, ← glyph]
    rfl
  have marked : (m.run drawing).state.redraw = true := by
    change (m.execute .allUp 0xD001).machine.state.redraw = true
    rw [machine_execute_of_executed? drawn]
    rfl
  have shown_eq : m.shown ops = (Screen.blank.paintSprite 0 0 [0xF0]).1 := by
    have taken : ((m.run drawing).operate .allUp .takeFrame).frame? =
        some (m.run drawing).state.screen := by
      simp [Outcome.frame?, operate, takeFrame, marked]
    rw [shown_concat, frame?_operate (by simp), Option.getD_none, shown_concat, taken, after]
    rfl
  have other : (m.run ops).state.screen ≠ m.shown ops := by
    intro same
    have corner := congrArg (·.pixel 0 0) same
    rw [shown_eq] at corner
    exact absurd corner (by decide)
  have none : (m.run ops).takeFrame.1 = none := rfl
  have taken := always (.ofBytes #[]) ops other
  exact absurd (none.symm.trans taken) (by simp)

end Machine

end Chip8
