import Chip8.Instruction.Listing
import Chip8.Proofs.Encoding
import Chip8.Proofs.Numerals
import Mathlib.Data.List.TakeWhile

/-!
# Listings can be read back

Eleven instructions are listed as `LD`, and a register may have a number of any length. A listing
still stands for one instruction only: there is a reader that finds the instruction again.

* `Operand.ofChars`, `ofChars_text`: an operand is told by its first characters, and a byte from an
  address by the number of its digits; `map_ofChars_pieces`: so is each of a list of them.
* `Instruction.ofParts?`, `ofParts?_parts`: an instruction is told by its mnemonic and by what kinds
  of operands stand behind it.
* `Instruction.read?`, `read?_text`: a listing is cut at its first blank and at its commas.
* `listing_determines`: the main theorem.
-/

namespace Chip8

open Numeral

/-! ## Operands -/

namespace Operand

/-- The operand with a spelling. What has no mark of its own is a height. -/
def ofChars : List Char → Operand
  | ['I'] => .index
  | ['[', 'I', ']'] => .atIndex
  | ['D', 'T'] => .delayTimer
  | ['S', 'T'] => .soundTimer
  | ['K'] => .key
  | ['F'] => .glyph
  | ['B'] => .digits
  | 'V' :: number => .register (value 16 number)
  | '0' :: 'x' :: numeral =>
    if numeral.length = 2 then .byte (UInt8.ofNat (value 16 numeral))
    else .address (UInt16.ofNat (value 16 numeral))
  | numeral => .height (UInt8.ofNat (value 10 numeral))

theorem ofChars_register (number : ℕ) :
    ofChars (Operand.register number).text.toList = .register number := by
  have spelling : (Operand.register number).text.toList = 'V' :: (hex 0 number).toList := by
    unfold Operand.text
    rw [String.toList_append]
    rfl
  rw [spelling, ofChars, value_hex]

theorem ofChars_byte (kk : UInt8) : ofChars (Operand.byte kk).text.toList = .byte kk := by
  have two : (hex 2 kk.toNat).toList.length = 2 := length_hex (by decide) kk.toNat_lt
  unfold Operand.text
  rw [toList_byte, ofChars, if_pos two, value_hex, UInt8.ofNat_toNat]

/-- An address has three digits or more. -/
theorem ofChars_address (addr : UInt16) :
    ofChars (Operand.address addr).text.toList = .address addr := by
  have three : 3 ≤ (hex 3 addr.toNat).toList.length := length_hex_ge 3 addr.toNat
  unfold Operand.text
  rw [toList_address, ofChars, if_neg (by omega), value_hex, UInt16.ofNat_toNat]

/-- A height has nothing but decimal digits in it, and every other operand has something else. -/
theorem ofChars_height (n : UInt8) : ofChars (Operand.height n).text.toList = .height n := by
  have back : value 10 (decimal n.toNat).toList = n.toNat := value_decimal n.toNat
  have no (c : Char) (hc : ∀ d < 10, digit d ≠ c) : c ∉ (decimal n.toNat).toList :=
    not_mem_decimal hc n.toNat
  unfold Operand.text
  generalize (decimal n.toNat).toList = numeral at back no
  unfold ofChars
  split
  case h_1 => exact absurd (by simp) (no 'I' (by decide))
  case h_2 => exact absurd (by simp) (no 'I' (by decide))
  case h_3 => exact absurd (by simp) (no 'D' (by decide))
  case h_4 => exact absurd (by simp) (no 'S' (by decide))
  case h_5 => exact absurd (by simp) (no 'K' (by decide))
  case h_6 => exact absurd (by simp) (no 'F' (by decide))
  case h_7 => exact absurd (by simp) (no 'B' (by decide))
  case h_8 => exact absurd (by simp) (no 'V' (by decide))
  case h_9 => exact absurd (by simp) (no 'x' (by decide))
  case h_10 => rw [back, UInt8.ofNat_toNat]

/-- Operands are read back. -/
theorem ofChars_text (operand : Operand) : ofChars operand.text.toList = operand := by
  cases operand with
  | register number => exact ofChars_register number
  | byte kk => exact ofChars_byte kk
  | address addr => exact ofChars_address addr
  | height n => exact ofChars_height n
  | _ => rfl

/-- There is no comma in a spelling. -/
theorem comma_not_mem_text (operand : Operand) : ',' ∉ operand.text.toList := by
  have not_hex (width n : ℕ) : ',' ∉ (hex width n).toList := not_mem_hex (by decide) width n
  cases operand with
  | register number => simp [Operand.text, not_hex]
  | byte kk => simp [Operand.text, toList_byte, not_hex]
  | address addr => simp [Operand.text, toList_address, not_hex]
  | height n => exact not_mem_decimal (by decide) n.toNat
  | _ => decide

/-- A list of operands is read back. -/
theorem map_ofChars_pieces {operands : List Operand} (h : operands ≠ []) :
    (pieces (' ' :: [',', ' '].intercalate (operands.map (·.text.toList)))).map ofChars =
      operands := by
  have no_comma : ∀ spelling ∈ operands.map (·.text.toList), ',' ∉ spelling := by
    intro spelling hspelling
    obtain ⟨operand, -, rfl⟩ := List.mem_map.mp hspelling
    exact operand.comma_not_mem_text
  have some_spelling : operands.map (·.text.toList) ≠ [] := by simpa using h
  rw [pieces_intercalate some_spelling no_comma, List.map_map]
  simp [Function.comp_def, ofChars_text]

end Operand

/-! ## Instructions -/

namespace Instruction

/-- The skip with a mnemonic and operands, if there is one. -/
def skipOfParts? : String → List Operand → Option (Instruction ℕ)
  | "SE", [.register x, .byte kk] => some (.skip (.equalByte x kk))
  | "SE", [.register x, .register y] => some (.skip (.equal x y))
  | "SNE", [.register x, .byte kk] => some (.skip (.unequalByte x kk))
  | "SNE", [.register x, .register y] => some (.skip (.unequal x y))
  | "SKP", [.register x] => some (.skip (.keyDown x))
  | "SKNP", [.register x] => some (.skip (.keyUp x))
  | _, _ => none

/-- The load with operands, if there is one. -/
def loadOfOperands? : List Operand → Option (Instruction ℕ)
  | [.register x, .byte kk] => some (.loadByte x kk)
  | [.register x, .register y] => some (.combine .move x y)
  | [.register x, .delayTimer] => some (.loadDelay x)
  | [.register x, .key] => some (.awaitKey x)
  | [.register x, .atIndex] => some (.loadRegisters x)
  | [.index, .address addr] => some (.loadIndex addr)
  | [.delayTimer, .register x] => some (.setDelay x)
  | [.soundTimer, .register x] => some (.setSound x)
  | [.glyph, .register x] => some (.loadGlyph x)
  | [.digits, .register x] => some (.storeDecimal x)
  | [.atIndex, .register x] => some (.storeRegisters x)
  | _ => none

/-- The instruction with a mnemonic and operands, if there is one. -/
def ofParts? : String → List Operand → Option (Instruction ℕ)
  | "CLS", [] => some .clear
  | "RET", [] => some .ret
  | "SYS", [.address addr] => some (.system addr)
  | "JP", [.address addr] => some (.jump addr)
  -- The register of this one is always V0.
  | "JP", [.register _, .address addr] => some (.jumpOffset addr)
  | "CALL", [.address addr] => some (.call addr)
  | "OR", [.register x, .register y] => some (.combine .or x y)
  | "AND", [.register x, .register y] => some (.combine .and x y)
  | "XOR", [.register x, .register y] => some (.combine .xor x y)
  | "ADD", [.register x, .register y] => some (.combine .add x y)
  | "ADD", [.register x, .byte kk] => some (.addByte x kk)
  | "ADD", [.index, .register x] => some (.addIndex x)
  | "SUB", [.register x, .register y] => some (.combine .sub x y)
  | "SUBN", [.register x, .register y] => some (.combine .subFrom x y)
  | "SHR", [.register x] => some (.shiftRight x)
  | "SHL", [.register x] => some (.shiftLeft x)
  | "RND", [.register x, .byte kk] => some (.random x kk)
  | "DRW", [.register x, .register y, .height n] => some (.draw x y n)
  | "LD", operands => loadOfOperands? operands
  | mnemonic, operands => skipOfParts? mnemonic operands

variable (instruction : Instruction ℕ)

theorem ofParts?_parts : ofParts? instruction.mnemonic instruction.operands = some instruction := by
  cases instruction with
  | skip test => cases test <;> rfl
  | combine op x y => cases op <;> rfl
  | _ => rfl

/-- There is no blank in a mnemonic. -/
theorem ne_blank_of_mem_mnemonic : ∀ c ∈ instruction.mnemonic.toList, c ≠ ' ' := by
  cases instruction with
  | skip test => cases test <;> simp [mnemonic, Test.mnemonic]
  | combine op x y => cases op <;> simp [mnemonic, Operation.mnemonic]
  | _ => simp [mnemonic]

/-- The instruction with a listing, if there is one. -/
def read? (listing : String) : Option (Instruction ℕ) :=
  let mnemonic := String.ofList (listing.toList.takeWhile (· ≠ ' '))
  match listing.toList.dropWhile (· ≠ ' ') with
  | [] => ofParts? mnemonic []
  | rest => ofParts? mnemonic ((pieces rest).map Operand.ofChars)

theorem toList_assemble (mnemonic : String) {operands : List Operand} (h : operands ≠ []) :
    (assemble mnemonic (operands.map Operand.text)).toList =
      mnemonic.toList ++
        ' ' :: [',', ' '].intercalate (operands.map (·.text.toList)) := by
  cases operands with
  | nil => exact absurd rfl h
  | cons first rest =>
    rw [List.map_cons, assemble, String.toList_append, String.toList_append,
      String.toList_intercalate, List.append_assoc, ← List.map_cons, List.map_map]
    · rfl
    · exact List.cons_ne_nil _ _

/-- Listings are read back. -/
theorem read?_text : read? instruction.text = some instruction := by
  have solid : ∀ c ∈ instruction.mnemonic.toList, decide (c ≠ ' ') = true := by
    intro c hc
    exact decide_eq_true (ne_blank_of_mem_mnemonic instruction c hc)
  have parts := ofParts?_parts instruction
  unfold read? text
  by_cases h : instruction.operands = []
  · rw [h] at parts
    rw [h, List.map_nil, assemble, List.dropWhile_eq_nil_iff.mpr solid,
      List.takeWhile_eq_self_iff.mpr solid, String.ofList_toList]
    exact parts
  · rw [toList_assemble _ h, List.takeWhile_append_of_pos solid,
      List.dropWhile_append_of_pos solid, List.takeWhile_cons_of_neg (by decide),
      List.dropWhile_cons_of_neg (by decide), List.append_nil, String.ofList_toList]
    simp only [Operand.map_ofChars_pieces h, parts]

/-- No two instructions have one listing, whatever numbers their registers have. -/
theorem text_injective : Function.Injective text := by
  intro i j h
  have read : some i = some j := by rw [← read?_text i, h, read?_text]
  exact Option.some.inj read

theorem map_leftInverse {ρ σ : Type} {f : ρ → σ} {g : σ → ρ} (h : Function.LeftInverse g f) :
    Function.LeftInverse (map g) (map f) := by
  intro instruction
  cases instruction with
  | skip test => cases test <;> simp [map, Test.map, h _]
  | _ => simp [map, h _]

theorem listing_injective : Function.Injective listing :=
  text_injective.comp (map_leftInverse Fin.ofNat_val_eq_self).injective

/-- **Main theorem.** Instructions with one listing are one instruction, whatever numbers their
    registers have, and so are instructions whose registers have numbers of 64 bits. Two words that
    stand for instructions have one listing just if they are one word, or words of one shift. -/
theorem listing_determines :
    Function.Injective text ∧
    Function.Injective (fun instruction : Instruction UInt64 =>
      (instruction.map UInt64.toNat).text) ∧
    ∀ v w first second, decode v = .ok first → decode w = .ok second →
      (first.listing = second.listing ↔ v = w ∨ Word.SameShift v w) := by
  refine ⟨text_injective, ?_, ?_⟩
  · have numbers : Function.LeftInverse UInt64.ofNat UInt64.toNat := fun _ => UInt64.ofNat_toNat
    exact text_injective.comp (map_leftInverse numbers).injective
  · intro v w first second hv hw
    rw [decode_eq_ok_iff] at hv hw
    rw [listing_injective.eq_iff]
    constructor
    · rintro rfl
      by_cases same : v = w
      · exact .inl same
      · exact .inr (sameShift_of_ofWord? hv hw same)
    · rintro (rfl | shift)
      · exact Option.some.inj (hv.symm.trans hw)
      · obtain ⟨instruction, hv', hw'⟩ := exists_ofWord?_of_sameShift shift
        rw [hv] at hv'
        rw [hw] at hw'
        exact Option.some.inj (hv'.trans hw'.symm)

/-- Two words of one shift share a listing, and two words that are listed as `ADD` do not. -/
theorem listing_determines_of_neighbours :
    decode 0x8AB6 = .ok (.shiftRight 0xA) ∧ decode 0x8A06 = .ok (.shiftRight 0xA) ∧
      (listing (.shiftRight 0xA) = listing (.shiftRight 0xA) ↔
        (0x8AB6 : Word) = 0x8A06 ∨ Word.SameShift 0x8AB6 0x8A06) ∧
      decode 0x7A10 = .ok (.addByte 0xA 0x10) ∧ decode 0x8A14 = .ok (.combine .add 0xA 0x1) ∧
      listing (.addByte 0xA 0x10) ≠ listing (.combine .add 0xA 0x1) := by
  obtain ⟨-, -, same_iff⟩ := listing_determines
  have decoded {w : Word} {instruction : Instruction Register}
      (h : ofWord? w = some instruction) : decode w = .ok instruction := decode_eq_ok_iff.mpr h
  have addByte : decode 0x7A10 = .ok (.addByte 0xA 0x10) := decoded (by decide)
  have add : decode 0x8A14 = .ok (.combine .add 0xA 0x1) := decoded (by decide)
  have shift : decode 0x8AB6 = .ok (.shiftRight 0xA) := decoded (by decide)
  have other : decode 0x8A06 = .ok (.shiftRight 0xA) := decoded (by decide)
  refine ⟨shift, other, same_iff _ _ _ _ shift other, addByte, add, fun same => ?_⟩
  have one_shift : (0x7A10 : Word) = 0x8A14 ∨ Word.SameShift 0x7A10 0x8A14 :=
    (same_iff _ _ _ _ addByte add).mp same
  exact absurd one_shift (by decide)

end Instruction

end Chip8
