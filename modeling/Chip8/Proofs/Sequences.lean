import Chip8.Proofs.Encoding
import Chip8.Proofs.Execution

/-!
# Instructions one after the other

A sequence of instructions is handed over word by word, without moving on behind any of them. If
control goes on behind each, then all that is left of the sequence is the effects, one on top of the
other.

* `Machine.executeAll`: the machine after several words.
* `Machine.LeadsTo`: instructions that make another machine of this one, by any of their words.
* `leadsTo_of_next`: one instruction, by its effect.
* `LeadsTo.append`: one sequence behind another.
-/

namespace Chip8.Machine

/-- The machine after several words were executed one after the other, or the first fault. -/
def executeAll (m : Machine) (held : HeldKeys) : List Word → Except Fault Machine
  | [] => .ok m
  | w :: rest =>
    let outcome := m.execute held w
    match outcome.result with
    | .ok () => outcome.machine.executeAll held rest
    | .error fault => .error fault

/-- Whichever keys are down, the words of the instructions are executed without a fault, and there
    is the machine `n` then. The digit that a shift leaves out may be any. -/
def LeadsTo (m : Machine) (instructions : List (Instruction Register)) (n : Machine) : Prop :=
  ∀ held y, m.executeAll held (instructions.map (Instruction.encode y)) = .ok n

variable {m : Machine} {held : HeldKeys} {instruction : Instruction Register}

/-- An instruction that control goes on behind, and that takes no random byte, leads to its
    effect. -/
theorem leadsTo_of_next (hwait : m.state.isWaiting = false) (hi : instruction.WellFormed)
    (hflow : ∀ held, m.state.flow held instruction = .next)
    (hbyte : instruction.takesByte = false) :
    m.LeadsTo [instruction]
      { m with state := m.state.effect m.source.peek instruction } := by
  intro held y
  rw [List.map_singleton, executeAll,
    execute_of_next hwait (Instruction.ofWord?_encode hi y) (hflow held), hbyte]
  rfl

theorem executeAll_append (first second : List Word) :
    m.executeAll held (first ++ second) =
      (m.executeAll held first).bind fun n => n.executeAll held second := by
  induction first generalizing m with
  | nil => rfl
  | cons w rest ih =>
    rw [List.cons_append, executeAll, executeAll]
    cases (m.execute held w).result with
    | ok => exact ih
    | error fault => rfl

/-- What leads to a machine, and what leads on from there. -/
theorem LeadsTo.append {n p : Machine} {first second : List (Instruction Register)}
    (h : m.LeadsTo first n) (h' : n.LeadsTo second p) : m.LeadsTo (first ++ second) p := by
  intro held y
  rw [List.map_append, executeAll_append, h held y]
  exact h' held y

end Chip8.Machine
