import Chip8.Text.Numeral
import Chip8.Instruction.Basic

/-!
# Listings

The assembler text of an instruction: a mnemonic and, after a blank, its operands with commas
between them.

* `Operand`: what can stand behind a mnemonic, and `Operand.text`, its spelling.
* `Instruction.mnemonic`, `Instruction.operands`: the two parts of a listing.
* `Instruction.text`: the listing itself.

Registers are plain numbers here, so that a listing is defined for any number of them;
`Instruction.listing` lists an instruction of a machine.
-/

namespace Chip8

/-- What can stand behind a mnemonic. -/
inductive Operand where
  /-- A register: `V` and its number in hexadecimal. -/
  | register (number : Nat)
  /-- A byte: two digits, marked as hexadecimal. -/
  | byte (kk : UInt8)
  /-- An address: three digits or more, marked as hexadecimal. -/
  | address (addr : UInt16)
  /-- The height of a sprite, in decimal. -/
  | height (n : UInt8)
  /-- The index register. -/
  | index
  /-- The memory at the index register. -/
  | atIndex
  /-- The delay timer. -/
  | delayTimer
  /-- The sound timer. -/
  | soundTimer
  /-- The next key. -/
  | key
  /-- The address of a glyph. -/
  | glyph
  /-- The decimal digits of a register. -/
  | digits
  deriving Repr, DecidableEq

/-- The spelling of an operand. -/
def Operand.text : Operand → String
  | register number => "V" ++ Numeral.hex 0 number
  | byte kk => Numeral.byte kk
  | address addr => Numeral.address addr
  | height n => Numeral.decimal n.toNat
  | index => "I"
  | atIndex => "[I]"
  | delayTimer => "DT"
  | soundTimer => "ST"
  | key => "K"
  | glyph => "F"
  | digits => "B"

/-- The mnemonic of a two-register operation. -/
def Operation.mnemonic : Operation → String
  | move => "LD"
  | or => "OR"
  | and => "AND"
  | xor => "XOR"
  | add => "ADD"
  | sub => "SUB"
  | subFrom => "SUBN"

/-- The mnemonic of a skip. -/
def Test.mnemonic {ρ : Type} : Test ρ → String
  | equalByte _ _ | equal _ _ => "SE"
  | unequalByte _ _ | unequal _ _ => "SNE"
  | keyDown _ => "SKP"
  | keyUp _ => "SKNP"

/-- The operands of a skip. -/
def Test.operands : Test Nat → List Operand
  | equalByte x kk | unequalByte x kk => [.register x, .byte kk]
  | equal x y | unequal x y => [.register x, .register y]
  | keyDown x | keyUp x => [.register x]

namespace Instruction

/-- The mnemonic of an instruction. Eleven forms share `LD`. -/
def mnemonic {ρ : Type} : Instruction ρ → String
  | clear => "CLS"
  | ret => "RET"
  | system _ => "SYS"
  | jump _ | jumpOffset _ => "JP"
  | call _ => "CALL"
  | skip test => test.mnemonic
  | combine op _ _ => op.mnemonic
  | addByte _ _ | addIndex _ => "ADD"
  | shiftRight _ => "SHR"
  | shiftLeft _ => "SHL"
  | random _ _ => "RND"
  | draw _ _ _ => "DRW"
  | loadByte _ _ | loadIndex _ | loadDelay _ | awaitKey _ | setDelay _ | setSound _
  | loadGlyph _ | storeDecimal _ | storeRegisters _ | loadRegisters _ => "LD"

/-- The operands of an instruction, in the order they are written. -/
def operands : Instruction Nat → List Operand
  | clear | ret => []
  | system addr | jump addr | call addr => [.address addr]
  | skip test => test.operands
  | loadByte x kk | addByte x kk | random x kk => [.register x, .byte kk]
  | combine _ x y => [.register x, .register y]
  | shiftRight x | shiftLeft x => [.register x]
  | loadIndex addr => [.index, .address addr]
  | jumpOffset addr => [.register 0, .address addr]
  | draw x y n => [.register x, .register y, .height n]
  | loadDelay x => [.register x, .delayTimer]
  | awaitKey x => [.register x, .key]
  | setDelay x => [.delayTimer, .register x]
  | setSound x => [.soundTimer, .register x]
  | addIndex x => [.index, .register x]
  | loadGlyph x => [.glyph, .register x]
  | storeDecimal x => [.digits, .register x]
  | storeRegisters x => [.atIndex, .register x]
  | loadRegisters x => [.register x, .atIndex]

/-- A mnemonic and the spellings of its operands, put together. -/
def assemble (mnemonic : String) : List String → String
  | [] => mnemonic
  | operands => mnemonic ++ " " ++ ", ".intercalate operands

/-- The assembler text of an instruction over numbered registers. -/
def text (instruction : Instruction Nat) : String :=
  assemble instruction.mnemonic (instruction.operands.map Operand.text)

/-- The assembler text of an instruction of a machine. -/
def listing (instruction : Instruction Register) : String :=
  (instruction.map Fin.val).text

end Instruction

end Chip8
