import Chip8.Instruction.Basic

/-!
# Writing an instruction word

The word of each instruction, as the comments of the constructors of `Instruction` give it. The
two shifts name no second register although their words have a digit for one; `encode` takes
that digit as an argument, and all other instructions ignore it.
-/

namespace Chip8.Instruction

/-- The word with first digit `family` and the twelve bits `rest` behind it. -/
def wordOf (family rest : Nat) : Word := UInt16.ofNat (family * 4096 + rest)

/-- The twelve bits of a register digit and a byte. -/
def operandsXK (x : Register) (kk : UInt8) : Nat := x.val * 256 + kk.toNat

/-- The twelve bits of two register digits and a last digit. -/
def operandsXY (x y : Register) (n : Nat) : Nat := x.val * 256 + y.val * 16 + n

/-- The last digit of the word of a two-register operation. -/
def operationDigit : Operation → Nat
  | .move => 0x0
  | .or => 0x1
  | .and => 0x2
  | .xor => 0x3
  | .add => 0x4
  | .sub => 0x5
  | .subFrom => 0x7

/-- The word of a skip. -/
def encodeTest : Test Register → Word
  | .equalByte x kk => wordOf 0x3 (operandsXK x kk)
  | .unequalByte x kk => wordOf 0x4 (operandsXK x kk)
  | .equal x y => wordOf 0x5 (operandsXY x y 0x0)
  | .unequal x y => wordOf 0x9 (operandsXY x y 0x0)
  | .keyDown x => wordOf 0xE (operandsXK x 0x9E)
  | .keyUp x => wordOf 0xE (operandsXK x 0xA1)

/-- The word of an instruction, with `y` in the unused digit of a shift. -/
def encode (y : Register) : Instruction Register → Word
  | clear => 0x00E0
  | ret => 0x00EE
  | system addr => wordOf 0x0 addr.toNat
  | jump addr => wordOf 0x1 addr.toNat
  | call addr => wordOf 0x2 addr.toNat
  | skip test => encodeTest test
  | loadByte x kk => wordOf 0x6 (operandsXK x kk)
  | addByte x kk => wordOf 0x7 (operandsXK x kk)
  | combine op x z => wordOf 0x8 (operandsXY x z (operationDigit op))
  | shiftRight x => wordOf 0x8 (operandsXY x y 0x6)
  | shiftLeft x => wordOf 0x8 (operandsXY x y 0xE)
  | loadIndex addr => wordOf 0xA addr.toNat
  | jumpOffset addr => wordOf 0xB addr.toNat
  | random x kk => wordOf 0xC (operandsXK x kk)
  | draw x z n => wordOf 0xD (operandsXY x z n.toNat)
  | loadDelay x => wordOf 0xF (operandsXK x 0x07)
  | awaitKey x => wordOf 0xF (operandsXK x 0x0A)
  | setDelay x => wordOf 0xF (operandsXK x 0x15)
  | setSound x => wordOf 0xF (operandsXK x 0x18)
  | addIndex x => wordOf 0xF (operandsXK x 0x1E)
  | loadGlyph x => wordOf 0xF (operandsXK x 0x29)
  | storeDecimal x => wordOf 0xF (operandsXK x 0x33)
  | storeRegisters x => wordOf 0xF (operandsXK x 0x55)
  | loadRegisters x => wordOf 0xF (operandsXK x 0x65)

/-- Whether every operand fits the digits that a word has for it: addresses twelve bits,
    heights four. -/
def Fits {ρ : Type} : Instruction ρ → Prop
  | system addr | jump addr | call addr | loadIndex addr | jumpOffset addr => addr < 0x1000
  | draw _ _ n => n < 16
  | _ => True

/-- Fitting is a comparison at most. -/
instance decidableFits {ρ : Type} (instruction : Instruction ρ) : Decidable instruction.Fits := by
  cases instruction <;> unfold Fits <;> infer_instance

end Chip8.Instruction
