/-!
# Instructions

The thirty-five forms a sixteen-bit word can take, in twenty-four shapes: the six skips share one
shape and the seven two-register operations another.

* `Word`, `Register`: what a program is written in, and what its operands name.
* `Test`: what a skip looks at.
* `Operation`: how two registers are combined.
* `Instruction`: an operation with its operands. The type of register names is a parameter,
  since a listing may speak of registers that no machine has.

Each constructor's comment gives the word it stands for, one hexadecimal digit a letter: `x` and
`y` name registers, `kk` is a byte, `nnn` an address and `n` a sprite's height.
-/

namespace Chip8

/-- A sixteen-bit word: an instruction, or the address of one. -/
abbrev Word := UInt16

/-- One of the sixteen registers V0 to VF of a machine. -/
abbrev Register := Fin 16

/-- Registers of a machine. -/
def registerCount : Nat := 16

/-- The register that arithmetic, shifts and drawing leave a flag in: VF. -/
def flagRegister : Register := ⟨15, by decide⟩

/-- The register that is added to the target of a jump with an offset: V0. -/
def offsetRegister : Register := ⟨0, by decide⟩

/-- Bytes of memory that one instruction takes up. -/
def instructionSize : UInt16 := 2

/-- The condition of a skip. -/
inductive Test (ρ : Type) where
  /-- `3xkk`: Vx is the byte kk. -/
  | equalByte (x : ρ) (kk : UInt8)
  /-- `4xkk`: Vx is not the byte kk. -/
  | unequalByte (x : ρ) (kk : UInt8)
  /-- `5xy0`: Vx and Vy agree. -/
  | equal (x y : ρ)
  /-- `9xy0`: Vx and Vy differ. -/
  | unequal (x y : ρ)
  /-- `Ex9E`: the key numbered Vx is down. -/
  | keyDown (x : ρ)
  /-- `ExA1`: the key numbered Vx is not down. -/
  | keyUp (x : ρ)
  deriving Repr, DecidableEq

/-- The operations that combine Vx with Vy and leave the result in Vx. -/
inductive Operation where
  /-- `8xy0`: Vy itself. -/
  | move
  /-- `8xy1`: bitwise or. -/
  | or
  /-- `8xy2`: bitwise and. -/
  | and
  /-- `8xy3`: bitwise exclusive or. -/
  | xor
  /-- `8xy4`: the sum; VF becomes the carry. -/
  | add
  /-- `8xy5`: Vx less Vy; VF tells whether Vx was the larger. -/
  | sub
  /-- `8xy7`: Vy less Vx; VF tells whether Vy was the larger. -/
  | subFrom
  deriving Repr, DecidableEq

/-- An instruction with its operands, over register names `ρ`. -/
inductive Instruction (ρ : Type) where
  /-- `00E0`: blanks the screen. -/
  | clear
  /-- `00EE`: returns from a subroutine. -/
  | ret
  /-- `0nnn`, save the two above: a routine of some other processor; nothing happens. -/
  | system (addr : UInt16)
  /-- `1nnn`: goes on at nnn. -/
  | jump (addr : UInt16)
  /-- `2nnn`: calls the subroutine at nnn. -/
  | call (addr : UInt16)
  /-- `3xkk`, `4xkk`, `5xy0`, `9xy0`, `Ex9E`, `ExA1`: leaves out the next instruction when the
      test holds. -/
  | skip (test : Test ρ)
  /-- `6xkk`: Vx becomes kk. -/
  | loadByte (x : ρ) (kk : UInt8)
  /-- `7xkk`: kk is added to Vx; no flag. -/
  | addByte (x : ρ) (kk : UInt8)
  /-- `8xy0` to `8xy5` and `8xy7`: Vx is combined with Vy. -/
  | combine (op : Operation) (x y : ρ)
  /-- `8xy6`: Vx is halved; VF becomes the bit that falls out. Any y will do. -/
  | shiftRight (x : ρ)
  /-- `8xyE`: Vx is doubled; VF becomes the bit that falls out. Any y will do. -/
  | shiftLeft (x : ρ)
  /-- `Annn`: the index register becomes nnn. -/
  | loadIndex (addr : UInt16)
  /-- `Bnnn`: goes on at nnn plus V0. -/
  | jumpOffset (addr : UInt16)
  /-- `Cxkk`: Vx becomes a random byte, masked with kk. -/
  | random (x : ρ) (kk : UInt8)
  /-- `Dxyn`: paints the n bytes at the index register as a sprite at Vx, Vy. -/
  | draw (x y : ρ) (n : UInt8)
  /-- `Fx07`: Vx becomes the delay timer. -/
  | loadDelay (x : ρ)
  /-- `Fx0A`: waits for a key, which Vx becomes. -/
  | awaitKey (x : ρ)
  /-- `Fx15`: the delay timer becomes Vx. -/
  | setDelay (x : ρ)
  /-- `Fx18`: the sound timer becomes Vx. -/
  | setSound (x : ρ)
  /-- `Fx1E`: Vx is added to the index register. -/
  | addIndex (x : ρ)
  /-- `Fx29`: the index register becomes the address of the glyph of Vx's last digit. -/
  | loadGlyph (x : ρ)
  /-- `Fx33`: the three decimal digits of Vx are stored at the index register. -/
  | storeDecimal (x : ρ)
  /-- `Fx55`: V0 to Vx are stored from the index register on. -/
  | storeRegisters (x : ρ)
  /-- `Fx65`: V0 to Vx are loaded from the index register on. -/
  | loadRegisters (x : ρ)
  deriving Repr, DecidableEq

/-- The test with its registers renamed. -/
def Test.map {ρ σ : Type} (f : ρ → σ) : Test ρ → Test σ
  | equalByte x kk => equalByte (f x) kk
  | unequalByte x kk => unequalByte (f x) kk
  | equal x y => equal (f x) (f y)
  | unequal x y => unequal (f x) (f y)
  | keyDown x => keyDown (f x)
  | keyUp x => keyUp (f x)

/-- The instruction with its registers renamed. -/
def Instruction.map {ρ σ : Type} (f : ρ → σ) : Instruction ρ → Instruction σ
  | clear => clear
  | ret => ret
  | system addr => system addr
  | jump addr => jump addr
  | call addr => call addr
  | skip test => skip (test.map f)
  | loadByte x kk => loadByte (f x) kk
  | addByte x kk => addByte (f x) kk
  | combine op x y => combine op (f x) (f y)
  | shiftRight x => shiftRight (f x)
  | shiftLeft x => shiftLeft (f x)
  | loadIndex addr => loadIndex addr
  | jumpOffset addr => jumpOffset addr
  | random x kk => random (f x) kk
  | draw x y n => draw (f x) (f y) n
  | loadDelay x => loadDelay (f x)
  | awaitKey x => awaitKey (f x)
  | setDelay x => setDelay (f x)
  | setSound x => setSound (f x)
  | addIndex x => addIndex (f x)
  | loadGlyph x => loadGlyph (f x)
  | storeDecimal x => storeDecimal (f x)
  | storeRegisters x => storeRegisters (f x)
  | loadRegisters x => loadRegisters (f x)

/-- Whether performing the instruction uses up a random byte. -/
def Instruction.takesByte {ρ : Type} : Instruction ρ → Bool
  | random _ _ => true
  | _ => false

/-- Whether the instruction paints or blanks the screen. -/
def Instruction.draws {ρ : Type} : Instruction ρ → Bool
  | clear | draw _ _ _ => true
  | _ => false

end Chip8
