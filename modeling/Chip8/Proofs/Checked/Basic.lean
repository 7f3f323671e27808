import Chip8.Machine.Basic
import Mathlib.Data.Nat.Notation

/-!
# Checked operations

The operations of a machine once more, over raw numbers. Registers are the whole numbers that the
digits of a word give; every look into a table is checked against the table's length, and every
sum or product that is not meant to wrap against its width. A failed check has no outcome at all:
it is `none`, which is different from a fault.

* `Checked.set`, `Checked.sum16`, `Checked.sum64`: the checks.
* `Checked.effect`, `Checked.apply`: one instruction.
* `Checked.execute`, `Checked.step`, `Checked.operate`: the operations.

`Chip8.Proofs.Checked.Agreement` shows that no check ever fails.
-/

namespace Chip8.Checked

/-! ## The checks -/

/-- The table with entry `k` replaced. -/
def set {α : Type} {n : ℕ} (table : Vector α n) (k : ℕ) (a : α) : Option (Vector α n) :=
  if h : k < n then some (table.set k a h) else none

/-- A sum that has to fit sixteen bits. -/
def sum16 (a b : UInt16) : Option UInt16 :=
  if a.toNat + b.toNat < 0x10000 then some (a + b) else none

/-- A product that has to fit sixteen bits. -/
def product16 (a b : UInt16) : Option UInt16 :=
  if a.toNat * b.toNat < 0x10000 then some (a * b) else none

/-- A sum that has to fit sixty-four bits. -/
def sum64 (a b : ℕ) : Option ℕ := if a + b < 0x10000000000000000 then some (a + b) else none

/-! ## Registers, memory and screen -/

/-- The state with register `x` replaced. -/
def setV (s : State) (x : ℕ) (b : UInt8) : Option State := do
  return { s with v := ← set s.v x b }

/-- The byte of memory in the cell that the low twelve bits of `a` name. -/
def peek (m : Memory) (a : UInt16) : Option UInt8 := m.cells[(a &&& 0xFFF).toNat]?

/-- Memory with that cell replaced. -/
def poke (m : Memory) (a : UInt16) (b : UInt8) : Option Memory := do
  return ⟨← set m.cells (a &&& 0xFFF).toNat b⟩

/-- The word at the program counter. -/
def fetch (s : State) : Option Word := do
  let left ← peek s.memory s.pc
  let right ← peek s.memory (s.pc + 1)
  return left.toUInt16 <<< 8 ||| right.toUInt16

/-- The columns under the eight bits of a sprite row. -/
def columns (x : ℕ) : List ℕ := (List.range 8).map fun bit => (x + bit) % 64

/-- Paints one sprite row, and tells whether it met a lit pixel. -/
def paint (screen : Screen) (x y : ℕ) (bits : UInt8) : Option (Screen × Bool) := do
  guard (∀ column ∈ columns x, column < 64)
  let row ← screen.rows[y % 32]?
  let rows ← set screen.rows (y % 32) (row ^^^ Screen.band x bits)
  return (⟨rows⟩, row &&& Screen.band x bits != 0)

/-! ## Loops -/

/-- Paints the sprite rows from `row` on, `count` of them. -/
def paintRows (s : State) (x y : ℕ) : ℕ → ℕ → Screen → Bool → Option (Screen × Bool)
  | _, 0, screen, met => some (screen, met)
  | row, count + 1, screen, met => do
    let bits ← peek s.memory (s.i + UInt16.ofNat row)
    let line ← sum64 y row
    let (painted, now) ← paint screen x line bits
    paintRows s x y (row + 1) count painted (met || now)

/-- Stores the registers from `k` on, `count` of them. -/
def storeFrom (s : State) : ℕ → ℕ → Memory → Option Memory
  | _, 0, m => some m
  | k, count + 1, m => do
    let b ← s.v[k]?
    storeFrom s (k + 1) count (← poke m (s.i + UInt16.ofNat k) b)

/-- Loads the registers from `k` on, `count` of them. -/
def loadFrom (s : State) : ℕ → ℕ → Vector UInt8 16 → Option (Vector UInt8 16)
  | _, 0, v => some v
  | k, count + 1, v => do
    let b ← peek s.memory (s.i + UInt16.ofNat k)
    loadFrom s (k + 1) count (← set v k b)

/-- The index register moved on behind registers `0` to `x`. -/
def passBlock (s : State) (x : ℕ) : Option State := do
  let count ← sum16 (UInt16.ofNat x) 1
  return { s with i := (s.i + count) &&& 0xFFF }

/-! ## Instructions -/

/-- The instruction that a word stands for, over whole numbers. -/
def decode (w : Word) : Option (Instruction ℕ) :=
  Instruction.ofDigits? ((w &&& 0x0F00) >>> 8).toNat ((w &&& 0x00F0) >>> 4).toNat w

/-- Whether the test of a skip holds. -/
def holds (s : State) (held : HeldKeys) : Test ℕ → Option Bool
  | .equalByte x kk => do return (← s.v[x]?) == kk
  | .unequalByte x kk => do return (← s.v[x]?) != kk
  | .equal x y => do return (← s.v[x]?) == (← s.v[y]?)
  | .unequal x y => do return (← s.v[x]?) != (← s.v[y]?)
  | .keyDown x => do return held.isDown (← s.v[x]?)
  | .keyUp x => do return !held.isDown (← s.v[x]?)

/-- Vx combined with Vy. -/
def combine (s : State) (op : Operation) (x y : ℕ) : Option State := do
  let (value, flag) := op.result (← s.v[x]?) (← s.v[y]?)
  let changed ← setV s x value
  match flag with
  | some flag => setV changed 15 flag
  | none => return changed

/-- The effect of the instructions that neither branch nor draw a random byte. -/
def effect (s : State) : Instruction ℕ → Option State
  | .clear => some { s with screen := .blank, redraw := true }
  | .loadByte x kk => setV s x kk
  | .addByte x kk => do setV s x ((← s.v[x]?) + kk)
  | .combine op x y => combine s op x y
  | .shiftRight x => do
    let a ← s.v[x]?
    setV (← setV s x (a >>> 1)) 15 (a &&& 1)
  | .shiftLeft x => do
    let a ← s.v[x]?
    setV (← setV s x (a <<< 1)) 15 (a >>> 7)
  | .loadIndex addr => some { s with i := addr }
  | .draw x y n => do
    let (screen, met) ← paintRows s (← s.v[x]?).toNat (← s.v[y]?).toNat 0 n.toNat s.screen false
    setV { s with screen, redraw := true } 15 (State.flagOf met)
  | .loadDelay x => setV s x s.delay
  | .awaitKey x => if h : x < 16 then some { s with awaiting := some ⟨x, h⟩ } else none
  | .setDelay x => do return { s with delay := ← s.v[x]? }
  | .setSound x => do return { s with sound := ← s.v[x]? }
  | .addIndex x => do return { s with i := (s.i + (← s.v[x]?).toUInt16) &&& 0xFFF }
  | .loadGlyph x => do
    let b ← s.v[x]?
    return { s with i := ← product16 (b &&& 0xF).toUInt16 5 }
  | .storeDecimal x => do
    let b ← s.v[x]?
    let hundreds ← poke s.memory s.i (b / 100)
    let tens ← poke hundreds (s.i + 1) (b / 10 % 10)
    return { s with memory := ← poke tens (s.i + 2) (b % 10) }
  | .storeRegisters x => do
    let memory ← storeFrom s 0 (x + 1) s.memory
    passBlock { s with memory } x
  | .loadRegisters x => do
    let v ← loadFrom s 0 (x + 1) s.v
    passBlock { s with v } x
  | .ret | .system _ | .jump _ | .call _ | .skip _ | .jumpOffset _ | .random _ _ => some s

/-- The next random byte, and the source behind it. -/
def nextByte : ByteSource → Option (UInt8 × ByteSource)
  | .replay bytes cursor =>
    if bytes.size = 0 then some (0, .replay bytes cursor)
    else do return (← bytes[cursor]?, .replay bytes ((cursor + 1) % bytes.size))
  | .generator stream taken => some (stream taken, .generator stream (taken + 1))

/-- One instruction, before the machine moves on. -/
def apply (s : State) (source : ByteSource) (held : HeldKeys) :
    Instruction ℕ → Option (Except Fault (State × ByteSource))
  | .ret =>
    if s.calls.depth = 0 then some (.error .stackUnderflow)
    else do
      let pc ← s.calls.slots[s.calls.depth - 1]?
      return .ok ({ s with pc, calls := { s.calls with depth := s.calls.depth - 1 } }, source)
  | .call addr =>
    if 32 ≤ s.calls.depth then some (.error (.stackOverflow 32))
    else do
      let slots ← set s.calls.slots s.calls.depth s.pc
      let depth ← sum64 s.calls.depth 1
      return .ok ({ s with pc := addr - 2, calls := ⟨slots, depth⟩ }, source)
  | .jump addr => some (.ok ({ s with pc := addr - 2 }, source))
  | .jumpOffset addr => do
    let target ← sum16 addr (← s.v[0]?).toUInt16
    return .ok ({ s with pc := target - 2 }, source)
  | .skip test => do
    return .ok (if ← holds s held test then { s with pc := s.pc + 2 } else s, source)
  | .random x kk => do
    let (byte, source) ← nextByte source
    return .ok (← setV s x (byte &&& kk), source)
  | instruction => do return .ok (← effect s instruction, source)

/-! ## Operations -/

/-- Executes a word. -/
def execute (m : Machine) (held : HeldKeys) (w : Word) : Option (Except Fault Unit × Machine) :=
  if m.state.isWaiting then some (.error .blocked, m)
  else
    match decode w with
    | none => some (.error (.unknownInstruction w), m)
    | some instruction => do
      match ← apply m.state m.source held instruction with
      | .error fault => return (.error fault, m)
      | .ok (state, source) => return (.ok (), { m with state, source })

/-- Performs the next instruction and moves on behind it. -/
def step (m : Machine) (held : HeldKeys) : Option (Except Fault Unit × Machine) :=
  if m.state.isWaiting then some (.ok (), m)
  else do
    match ← execute m held (← fetch m.state) with
    | (.ok (), after) =>
      return (.ok (), { after with state := { after.state with pc := after.state.pc + 2 } })
    | (.error fault, after) => return (.error fault, after)

/-- The table with zeros from `start` on. -/
def zeroFrom {n : ℕ} (table : Vector UInt8 n) (start : ℕ) : Option (Vector UInt8 n) :=
  if start ≤ n then some (Vector.ofFn fun k => if k.val < start then table[k] else 0) else none

/-- The table with `bytes` from `start` on. -/
def copyAt {n : ℕ} (table : Vector UInt8 n) (start : ℕ) (bytes : Array UInt8) :
    Option (Vector UInt8 n) :=
  if start + bytes.size ≤ n then
    some (Vector.ofFn fun k =>
      if start ≤ k.val ∧ k.val < start + bytes.size then bytes[k.val - start]?.getD 0 else table[k])
  else none

/-- The first `len` bytes. -/
def firstBytes (bytes : Array UInt8) (len : ℕ) : Option (Array UInt8) :=
  if len ≤ bytes.size then some (bytes.extract 0 len) else none

/-- Memory with the first `len` bytes of an image in the program area, and zeros behind them. -/
def placeProgram (m : Memory) (image : Array UInt8) (len : ℕ) : Option Memory := do
  let cleared ← zeroFrom m.cells 0x200
  return ⟨← copyAt cleared 0x200 (← firstBytes image len)⟩

/-- Loads a program image. -/
def load (m : Machine) (image : Array UInt8) : Option (Except Fault Loaded × Machine) := do
  let len := min image.size 3584
  let memory ← placeProgram m.state.memory image len
  let loaded := if len < image.size then Loaded.truncated len image.size else .complete len
  return (.ok loaded, { m with state := { m.state with memory, pc := 0x200 } })

/-- Loads the program that a reader holds. -/
def read (m : Machine) (outcomes : List ReadOutcome) : Option (Except Fault Loaded × Machine) :=
  match readToEnd outcomes with
  | .ok image => load m image
  | .error fault => some (.error fault, m)

/-- A key goes down. -/
def hear (m : Machine) (key : UInt8) : Option Machine :=
  match m.state.awaiting with
  | some x => do return { m with state := { ← setV m.state x.val key with awaiting := none } }
  | none => some m

/-- Carries out an operation. The remaining ones look into no table and add nothing. -/
def operate (m : Machine) (held : HeldKeys) :
    Machine.Op → Option (Except Fault Machine.Gain × Machine)
  | .load image => do
    let (result, after) ← load m image
    return (result.map .loaded, after)
  | .read outcomes => do
    let (result, after) ← read m outcomes
    return (result.map .loaded, after)
  | .execute w => do
    let (result, after) ← execute m held w
    return (result.map fun _ => .nothing, after)
  | .step => do
    let (result, after) ← step m held
    return (result.map fun _ => .nothing, after)
  | .hear key => do return (.ok .nothing, ← hear m key)
  | .tick => some (.ok .nothing, m.tick)
  | .reset => some (.ok .nothing, m.reset)
  | .takeFrame => some (.ok (.frame m.takeFrame.1), m.takeFrame.2)

end Chip8.Checked
