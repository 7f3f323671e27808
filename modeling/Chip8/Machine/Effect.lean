import Chip8.Machine.State

/-!
# What instructions do to data

The effect of an instruction on everything but the program counter and the call stack, which
`Chip8.Machine.Flow` looks after. Instructions that only direct control have no effect here.

* `Operation.result`: the two-register operations, with the flag of those that have one.
* `State.drawSprite`, `State.storeDecimal`, `State.storeRegisters`, `State.loadRegisters`: the
  effects on screen and memory.
* `State.effect`: the effect of an instruction, given the random byte that it would draw.
-/

namespace Chip8

/-- What combining Vx and Vy gives: the new Vx, and the flag if there is one. -/
def Operation.result (a b : UInt8) : Operation → UInt8 × Option UInt8
  | move => (b, none)
  | or => (a ||| b, none)
  | and => (a &&& b, none)
  | xor => (a ^^^ b, none)
  | add => (a + b, some (State.flagOf (decide (255 < a.toNat + b.toNat))))
  | sub => (a - b, some (State.flagOf (decide (b < a))))
  | subFrom => (b - a, some (State.flagOf (decide (a < b))))

/-- The three decimal digits of a byte. -/
def decimalDigits (b : UInt8) : List UInt8 := [b / 100, b / 10 % 10, b % 10]

namespace State

/-- Vx combined with Vy. The flag comes last, so it wins where x is the flag register. -/
def combine (s : State) (op : Operation) (x y : Register) : State :=
  match op.result (s.v.get x) (s.v.get y) with
  | (value, none) => s.setV x value
  | (value, some flag) => (s.setV x value).setFlag flag

/-- Vx halved, the flag being the bit that falls out. -/
def shiftRight (s : State) (x : Register) : State :=
  (s.setV x (s.v.get x >>> 1)).setFlag (s.v.get x &&& 1)

/-- Vx doubled, the flag being the bit that falls out. -/
def shiftLeft (s : State) (x : Register) : State :=
  (s.setV x (s.v.get x <<< 1)).setFlag (s.v.get x >>> 7)

/-- The index register moved on by `count`, within memory. -/
def advanceIndex (s : State) (count : UInt16) : State :=
  { s with i := (s.i + count) &&& Memory.addressMask }

/-- The index register at the glyph of the last digit of `b`. -/
def indexGlyph (s : State) (b : UInt8) : State :=
  { s with i := UInt16.ofNat (b.toNat % 16 * Memory.glyphSize) }

/-- The `n` bytes at the index register painted as a sprite at Vx, Vy; the flag tells whether a
    pixel went dark. -/
def drawSprite (s : State) (x y : Register) (n : UInt8) : State :=
  let sprite := s.memory.load s.i n.toNat
  let (screen, collided) := s.screen.paintSprite (s.v.get x).toNat (s.v.get y).toNat sprite
  ({ s with screen, redraw := true }).setFlag (flagOf collided)

/-- The decimal digits of Vx in memory at the index register. -/
def storeDecimal (s : State) (x : Register) : State :=
  { s with memory := s.memory.store s.i (decimalDigits (s.v.get x)) }

/-- V0 to Vx in memory at the index register, which moves on behind them. -/
def storeRegisters (s : State) (x : Register) : State :=
  let stored := { s with memory := s.memory.store s.i (s.v.toList.take (x.val + 1)) }
  stored.advanceIndex (UInt16.ofNat (x.val + 1))

/-- V0 to Vx from memory at the index register, which moves on behind them. -/
def loadRegisters (s : State) (x : Register) : State :=
  let loaded := Vector.ofFn fun k : Fin 16 =>
    if k ≤ x then s.memory.peek (s.i + UInt16.ofNat k.val) else s.v.get k
  ({ s with v := loaded }).advanceIndex (UInt16.ofNat (x.val + 1))

/-- The effect of an instruction on data, `byte` being the random byte that comes next. -/
def effect (s : State) (byte : UInt8) : Instruction Register → State
  | .clear => { s with screen := .blank, redraw := true }
  | .loadByte x kk => s.setV x kk
  | .addByte x kk => s.setV x (s.v.get x + kk)
  | .combine op x y => s.combine op x y
  | .shiftRight x => s.shiftRight x
  | .shiftLeft x => s.shiftLeft x
  | .loadIndex addr => { s with i := addr }
  | .random x kk => s.setV x (byte &&& kk)
  | .draw x y n => s.drawSprite x y n
  | .loadDelay x => s.setV x s.delay
  | .awaitKey x => { s with awaiting := some x }
  | .setDelay x => { s with delay := s.v.get x }
  | .setSound x => { s with sound := s.v.get x }
  | .addIndex x => s.advanceIndex (s.v.get x).toUInt16
  | .loadGlyph x => s.indexGlyph (s.v.get x)
  | .storeDecimal x => s.storeDecimal x
  | .storeRegisters x => s.storeRegisters x
  | .loadRegisters x => s.loadRegisters x
  | .ret | .system _ | .jump _ | .call _ | .skip _ | .jumpOffset _ => s

end State

end Chip8
