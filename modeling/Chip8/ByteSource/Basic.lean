import Chip8.ByteSource.ChaCha

/-!
# Sources of random bytes

A machine draws the bytes of its random instruction from a source, one at a time.

* `ByteSource.replay`: a fixed list of bytes, over and over; the empty list gives zeros.
* `ByteSource.generator`: any endless stream; `ByteSource.ofSeed`, the key stream of a seed.
* `ByteSource.peek`, `ByteSource.advance`: the byte that comes next, and the source behind it.
* `ByteSource.upcoming`: the view of a source, all its bytes to come.
* `upcoming_zero`, `upcoming_advance`: the view starts with the next byte, and advancing moves it
  on.
-/

namespace Chip8

/-- Where random bytes come from. -/
inductive ByteSource where
  /-- The given bytes again and again; `cursor` is the place of the next one. -/
  | replay (bytes : Array UInt8) (cursor : Nat)
  /-- A stream without end, of which `taken` bytes are used up. -/
  | generator (stream : Nat → UInt8) (taken : Nat)

namespace ByteSource

/-- The source that replays `bytes` from the start. -/
def ofBytes (bytes : Array UInt8) : ByteSource := replay bytes 0

/-- The source that a seed stands for. It is one stream among all: whatever is proved of sources
    holds of every stream, and so does not depend on how this one is computed. -/
def ofSeed (seed : UInt64) : ByteSource :=
  generator (ChaCha.keystreamByte (ChaCha.Key.ofSeed seed)) 0

/-- The next byte. -/
def peek : ByteSource → UInt8
  | replay bytes cursor => bytes[cursor]?.getD 0
  | generator stream taken => stream taken

/-- The source once its next byte is used up. -/
def advance : ByteSource → ByteSource
  | replay bytes cursor =>
    if bytes.size = 0 then replay bytes cursor else replay bytes ((cursor + 1) % bytes.size)
  | generator stream taken => generator stream (taken + 1)

/-- The source once `count` bytes are used up. -/
def drop (s : ByteSource) : Nat → ByteSource
  | 0 => s
  | count + 1 => s.advance.drop count

/-- Byte `k` of all that are to come. -/
def upcoming : ByteSource → Nat → UInt8
  | replay bytes cursor, k => bytes[(cursor + k) % bytes.size]?.getD 0
  | generator stream taken, k => stream (taken + k)

/-- The next `count` bytes. -/
def take (s : ByteSource) : Nat → List UInt8
  | 0 => []
  | count + 1 => s.peek :: s.advance.take count

/-- Whether the cursor of a replayed list lies within it; an empty list has no other place than
    the first. -/
def WellPlaced : ByteSource → Prop
  | replay bytes cursor => if bytes.size = 0 then cursor = 0 else cursor < bytes.size
  | generator _ _ => True

theorem drop_drop (s : ByteSource) (first second : Nat) :
    (s.drop first).drop second = s.drop (first + second) := by
  induction first generalizing s with
  | zero => rw [Nat.zero_add]; rfl
  | succ first ih =>
    rw [Nat.succ_add]
    exact ih s.advance

theorem wellPlaced_ofBytes (bytes : Array UInt8) : (ofBytes bytes).WellPlaced := by
  by_cases e : bytes.size = 0 <;> simp [ofBytes, WellPlaced, e]; omega

theorem wellPlaced_advance {s : ByteSource} (h : s.WellPlaced) : s.advance.WellPlaced := by
  cases s with
  | replay bytes cursor =>
    by_cases e : bytes.size = 0
    · simpa [advance, WellPlaced, e] using h
    · simpa [advance, WellPlaced, e] using Nat.mod_lt _ (by omega)
  | generator stream taken => trivial

/-- The first byte to come is the next one. -/
theorem upcoming_zero {s : ByteSource} (h : s.WellPlaced) : s.upcoming 0 = s.peek := by
  cases s with
  | replay bytes cursor =>
    by_cases e : bytes.size = 0
    · simp [upcoming, peek, e]
    · simp only [WellPlaced, e, ↓reduceIte] at h
      simp [upcoming, peek, Nat.mod_eq_of_lt h]
  | generator stream taken => rfl

/-- Using up a byte moves the view on by one. -/
theorem upcoming_advance (s : ByteSource) (k : Nat) :
    s.advance.upcoming k = s.upcoming (k + 1) := by
  cases s with
  | replay bytes cursor =>
    by_cases e : bytes.size = 0
    · simp [upcoming, advance, e]
    · simp only [upcoming, advance, e, ↓reduceIte, Nat.mod_add_mod]
      rw [show cursor + 1 + k = cursor + (k + 1) by omega]
  | generator stream taken =>
    simp only [upcoming, advance]
    rw [show taken + 1 + k = taken + (k + 1) by omega]

end ByteSource

end Chip8
