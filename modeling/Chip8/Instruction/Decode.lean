import Chip8.Fault

/-!
# Reading an instruction word

A word is four hexadecimal digits. The first gives its family; the families `0`, `8`, `E` and `F`
and the skips `5` and `9` are told apart further by their last digits. What is left over are the
operands.

* `Word.family`, `Word.x`, `Word.y`, `Word.n`, `Word.kk`, `Word.addr`: the parts of a word.
* `Instruction.ofDigits?`: the instruction of a word whose register digits are read as `x` and `y`.
* `Instruction.ofWord?`: the instruction a word stands for, if any.
* `Instruction.decode`: the same, with the fault for a word that stands for none.
-/

namespace Chip8

namespace Word

/-- The first hexadecimal digit. -/
def family (w : Word) : Nat := w.toNat / 4096

/-- The second digit, as a register. -/
def x (w : Word) : Register := ⟨w.toNat / 256 % 16, Nat.mod_lt _ (by decide)⟩

/-- The third digit, as a register. -/
def y (w : Word) : Register := ⟨w.toNat / 16 % 16, Nat.mod_lt _ (by decide)⟩

/-- The last digit. -/
def n (w : Word) : UInt8 := UInt8.ofNat (w.toNat % 16)

/-- The last two digits. -/
def kk (w : Word) : UInt8 := UInt8.ofNat (w.toNat % 256)

/-- The last three digits. -/
def addr (w : Word) : UInt16 := UInt16.ofNat (w.toNat % 4096)

theorem toNat_addr (w : Word) : (addr w).toNat = w.toNat % 4096 := by
  have := w.toNat_lt
  simp [addr]; omega

theorem toNat_kk (w : Word) : (kk w).toNat = w.toNat % 256 := by
  simp [kk]

theorem toNat_n (w : Word) : (n w).toNat = w.toNat % 16 := by
  simp [n]; omega

end Word

namespace Instruction

variable {ρ : Type}

/-- Family `0`: the two words with a meaning of their own, and all others. -/
def ofSystem (addr : UInt16) : Instruction ρ :=
  if addr = 0x0E0 then .clear else if addr = 0x0EE then .ret else .system addr

/-- Family `8`: the last digit selects how Vx changes. -/
def ofArithmetic? (x y : ρ) : Nat → Option (Instruction ρ)
  | 0x0 => some (.combine .move x y)
  | 0x1 => some (.combine .or x y)
  | 0x2 => some (.combine .and x y)
  | 0x3 => some (.combine .xor x y)
  | 0x4 => some (.combine .add x y)
  | 0x5 => some (.combine .sub x y)
  | 0x6 => some (.shiftRight x)
  | 0x7 => some (.combine .subFrom x y)
  | 0xE => some (.shiftLeft x)
  | _ => none

/-- Family `E`: the last two digits select which way the key test goes. -/
def ofKeyTest? (x : ρ) : Nat → Option (Instruction ρ)
  | 0x9E => some (.skip (.keyDown x))
  | 0xA1 => some (.skip (.keyUp x))
  | _ => none

/-- Family `F`: the last two digits select the instruction. -/
def ofTransfer? (x : ρ) : Nat → Option (Instruction ρ)
  | 0x07 => some (.loadDelay x)
  | 0x0A => some (.awaitKey x)
  | 0x15 => some (.setDelay x)
  | 0x18 => some (.setSound x)
  | 0x1E => some (.addIndex x)
  | 0x29 => some (.loadGlyph x)
  | 0x33 => some (.storeDecimal x)
  | 0x55 => some (.storeRegisters x)
  | 0x65 => some (.loadRegisters x)
  | _ => none

/-- The instruction that `w` stands for, `x` and `y` being what its second and third digits name. -/
def ofDigits? (x y : ρ) (w : Word) : Option (Instruction ρ) :=
  match Word.family w with
  | 0x0 => some (ofSystem (Word.addr w))
  | 0x1 => some (.jump (Word.addr w))
  | 0x2 => some (.call (Word.addr w))
  | 0x3 => some (.skip (.equalByte x (Word.kk w)))
  | 0x4 => some (.skip (.unequalByte x (Word.kk w)))
  | 0x5 => if Word.n w = 0 then some (.skip (.equal x y)) else none
  | 0x6 => some (.loadByte x (Word.kk w))
  | 0x7 => some (.addByte x (Word.kk w))
  | 0x8 => ofArithmetic? x y (Word.n w).toNat
  | 0x9 => if Word.n w = 0 then some (.skip (.unequal x y)) else none
  | 0xA => some (.loadIndex (Word.addr w))
  | 0xB => some (.jumpOffset (Word.addr w))
  | 0xC => some (.random x (Word.kk w))
  | 0xD => some (.draw x y (Word.n w))
  | 0xE => ofKeyTest? x (Word.kk w).toNat
  | 0xF => ofTransfer? x (Word.kk w).toNat
  | _ => none

/-- The instruction that `w` stands for. -/
def ofWord? (w : Word) : Option (Instruction Register) := ofDigits? (Word.x w) (Word.y w) w

/-- Reads `w` as an instruction. -/
def decode (w : Word) : Except Fault (Instruction Register) :=
  match ofWord? w with
  | some instruction => .ok instruction
  | none => .error (.unknownInstruction w)

theorem decode_eq_ok_iff {w : Word} {instruction : Instruction Register} :
    decode w = .ok instruction ↔ ofWord? w = some instruction := by
  unfold decode; split <;> simp_all

theorem decode_eq_error_iff {w : Word} {fault : Fault} :
    decode w = .error fault ↔ ofWord? w = none ∧ fault = .unknownInstruction w := by
  unfold decode; split <;> simp_all
  exact eq_comm

end Instruction

end Chip8
