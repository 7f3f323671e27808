import Chip8.Instruction.Decode
import Chip8.Instruction.Encode
import Mathlib.Tactic.Ring

/-!
# What a decoded word says

Facts about `Instruction.ofWord?` that hold for every word.

* `ofDigits?_map`: decoding treats register names as opaque.
* `fits_of_ofWord?`: addresses have twelve bits and heights four.
* `ofWord?_eq_ret_iff`, `ofWord?_eq_call_iff`: the words of the two instructions that can fail.
-/

namespace Chip8

namespace Word

/-- A word is its first digit and its last three. -/
theorem toNat_eq (w : Word) : w.toNat = family w * 4096 + (addr w).toNat := by
  rw [toNat_addr]
  unfold family; omega

theorem eq_of_family_of_addr {v w : Word} (hf : family v = family w) (ha : addr v = addr w) :
    v = w := by
  apply UInt16.toNat_inj.mp
  rw [toNat_eq v, toNat_eq w, hf, ha]

/-- Only family `0` has the word of the return. -/
theorem ne_ret {w : Word} (hf : family w ≠ 0) : w ≠ 0x00EE := by
  rintro rfl
  exact hf (by decide)

theorem addr_lt (w : Word) : addr w < 0x1000 := by
  rw [UInt16.lt_iff_toNat_lt, toNat_addr]
  exact Nat.mod_lt _ (by decide)

theorem n_lt (w : Word) : n w < 16 := by
  rw [UInt8.lt_iff_toNat_lt, toNat_n]
  exact Nat.mod_lt _ (by decide)

end Word

namespace Instruction

variable {ρ σ : Type}

/-! ## Register names are opaque -/

theorem ofSystem_map (f : ρ → σ) (addr : UInt16) :
    (ofSystem addr : Instruction σ) = (ofSystem addr : Instruction ρ).map f := by
  unfold ofSystem
  split
  · rfl
  · split <;> rfl

theorem ofArithmetic?_map (f : ρ → σ) (x y : ρ) (k : ℕ) :
    ofArithmetic? (f x) (f y) k = (ofArithmetic? x y k).map (Instruction.map f) := by
  unfold ofArithmetic?
  split <;> rfl

theorem ofKeyTest?_map (f : ρ → σ) (x : ρ) (k : ℕ) :
    ofKeyTest? (f x) k = (ofKeyTest? x k).map (Instruction.map f) := by
  unfold ofKeyTest?
  split <;> rfl

theorem ofTransfer?_map (f : ρ → σ) (x : ρ) (k : ℕ) :
    ofTransfer? (f x) k = (ofTransfer? x k).map (Instruction.map f) := by
  unfold ofTransfer?
  split <;> rfl

/-- Renaming the registers of a decoded instruction is decoding with renamed registers. -/
theorem ofDigits?_map (f : ρ → σ) (x y : ρ) (w : Word) :
    ofDigits? (f x) (f y) w = (ofDigits? x y w).map (Instruction.map f) := by
  unfold ofDigits?
  split
  case h_1 => rw [ofSystem_map f]; rfl
  case h_6 => split <;> rfl
  case h_9 => exact ofArithmetic?_map f x y _
  case h_10 => split <;> rfl
  case h_15 => exact ofKeyTest?_map f x _
  case h_16 => exact ofTransfer?_map f x _
  all_goals rfl

/-! ## Operands fit their digits -/

theorem fits_ofSystem {addr : UInt16} (h : addr < 0x1000) :
    (ofSystem addr : Instruction ρ).Fits := by
  unfold ofSystem
  split
  · trivial
  · split
    · trivial
    · exact h

theorem fits_of_ofDigits? {x y : ρ} {w : Word} {instruction : Instruction ρ}
    (h : ofDigits? x y w = some instruction) : instruction.Fits := by
  have ha := Word.addr_lt w
  have hn := Word.n_lt w
  unfold ofDigits? at h
  split at h
  case h_1 => cases h; exact fits_ofSystem ha
  case h_6 => split at h <;> cases h; trivial
  case h_9 => unfold ofArithmetic? at h; split at h <;> cases h <;> trivial
  case h_10 => split at h <;> cases h; trivial
  case h_15 => unfold ofKeyTest? at h; split at h <;> cases h <;> trivial
  case h_16 => unfold ofTransfer? at h; split at h <;> cases h <;> trivial
  case h_17 => cases h
  all_goals cases h; trivial

/-- A decoded address has twelve bits, and a decoded height four. -/
theorem fits_of_ofWord? {w : Word} {instruction : Instruction Register}
    (h : ofWord? w = some instruction) : instruction.Fits :=
  fits_of_ofDigits? h

/-! ## The first digit -/

/-- The first digit of the words of a skip. -/
def testFamily : Test ρ → ℕ
  | .equalByte _ _ => 0x3
  | .unequalByte _ _ => 0x4
  | .equal _ _ => 0x5
  | .unequal _ _ => 0x9
  | .keyDown _ | .keyUp _ => 0xE

/-- The first digit of the words of an instruction. -/
def family : Instruction ρ → ℕ
  | clear | ret | system _ => 0x0
  | jump _ => 0x1
  | call _ => 0x2
  | skip test => testFamily test
  | loadByte _ _ => 0x6
  | addByte _ _ => 0x7
  | combine _ _ _ | shiftRight _ | shiftLeft _ => 0x8
  | loadIndex _ => 0xA
  | jumpOffset _ => 0xB
  | random _ _ => 0xC
  | draw _ _ _ => 0xD
  | loadDelay _ | awaitKey _ | setDelay _ | setSound _ | addIndex _ | loadGlyph _
  | storeDecimal _ | storeRegisters _ | loadRegisters _ => 0xF

theorem family_ofSystem (addr : UInt16) : (ofSystem addr : Instruction ρ).family = 0 := by
  unfold ofSystem
  split
  · rfl
  · split <;> rfl

/-- A word stands for an instruction of its own family only. -/
theorem family_of_ofWord? {w : Word} {instruction : Instruction Register}
    (h : ofWord? w = some instruction) : Word.family w = instruction.family := by
  unfold ofWord? ofDigits? at h
  split at h
  case h_1 hf => cases h; rw [hf, family_ofSystem]
  case h_6 hf => split at h <;> cases h; exact hf
  case h_9 hf => unfold ofArithmetic? at h; split at h <;> cases h <;> exact hf
  case h_10 hf => split at h <;> cases h; exact hf
  case h_15 hf => unfold ofKeyTest? at h; split at h <;> cases h <;> exact hf
  case h_16 hf => unfold ofTransfer? at h; split at h <;> cases h <;> exact hf
  case h_17 => cases h
  all_goals cases h; assumption

/-! ## The words of the instructions that can fail -/

theorem ofSystem_eq_ret_iff {addr : UInt16} :
    (ofSystem addr : Instruction ρ) = .ret ↔ addr = 0x0EE := by
  unfold ofSystem
  split
  · next h => subst h; simp
  · split <;> simp_all

/-- Only `00EE` returns. -/
theorem ofWord?_eq_ret_iff {w : Word} : ofWord? w = some .ret ↔ w = 0x00EE := by
  constructor
  · intro h
    have hf : Word.family w = 0 := family_of_ofWord? h
    have ha : Word.addr w = 0x0EE := by
      simp only [ofWord?, ofDigits?, hf, Option.some.injEq] at h
      exact ofSystem_eq_ret_iff.mp h
    exact Word.eq_of_family_of_addr (hf.trans (by decide)) (ha.trans (by decide))
  · rintro rfl
    decide

/-- Only `2nnn` calls, and it calls `nnn`. -/
theorem ofWord?_eq_call_iff {w : Word} {target : UInt16} :
    ofWord? w = some (.call target) ↔ Word.family w = 2 ∧ target = Word.addr w := by
  constructor
  · intro h
    have hf : Word.family w = 2 := family_of_ofWord? h
    simp only [ofWord?, ofDigits?, hf, Option.some.injEq, call.injEq] at h
    exact ⟨hf, h.symm⟩
  · rintro ⟨hf, rfl⟩
    simp [ofWord?, ofDigits?, hf]

end Instruction

end Chip8
