import Chip8.Instruction.Basic

/-!
# The call stack

Thirty-two slots for return addresses, filled from the bottom. A slot keeps its address after
the return that used it, until a later call writes there again.

* `CallStack.push?`, `CallStack.pop?`: enter and leave a subroutine, where possible.
* `CallStack.live`: the addresses of the open subroutines, outermost first.
-/

namespace Chip8

/-- Return addresses, of which the first `depth` belong to open subroutines. -/
structure CallStack where
  slots : Vector UInt16 32
  depth : Nat
  deriving DecidableEq

namespace CallStack

/-- The most subroutines that can be open. -/
def capacity : Nat := 32

/-- No open subroutine. -/
def empty : CallStack := ⟨Vector.replicate 32 0, 0⟩

/-- Opens a subroutine with the given return address, unless as many as fit are open. -/
def push? (c : CallStack) (back : UInt16) : Option CallStack :=
  if h : c.depth < 32 then some ⟨c.slots.set c.depth back h, c.depth + 1⟩ else none

/-- Closes the innermost subroutine and gives its return address, if one is open. -/
def pop? (c : CallStack) : Option (UInt16 × CallStack) :=
  match c.depth with
  | 0 => none
  | depth + 1 => some (c.slots[depth]?.getD 0, { c with depth })

/-- The return addresses of the open subroutines, the outermost first. -/
def live (c : CallStack) : List UInt16 := c.slots.toList.take c.depth

/-! ## The view of each operation -/

@[simp] theorem live_empty : empty.live = [] := by simp [live, empty]

theorem push?_eq_none_iff (c : CallStack) (back : UInt16) : c.push? back = none ↔ 32 ≤ c.depth := by
  unfold push?; split <;> simp <;> omega

theorem live_push? {c d : CallStack} {back : UInt16} (h : c.push? back = some d) :
    d.live = c.live ++ [back] := by
  unfold push? at h
  split at h
  · next hlt =>
    cases h
    simp only [live, Vector.toList_set]
    rw [List.take_add_one, List.getElem?_set_self (by simpa using hlt)]
    simp [List.take_set_of_le]
  · cases h

end CallStack

end Chip8
