import Chip8.Proofs.Decoding

/-!
# Decoding undoes encoding

Every word has four digits, and an instruction lays its operands out in three of them. To read a
word back is to find the digits where they were put, so nothing is lost. The two shifts are the only
instructions that leave a digit out, and so the only ones that have more than one word.

* `family_wordOf`, `x_wordOf`, `y_wordOf`, `n_wordOf`, `kk_wordOf`, `addr_wordOf`: the digits of a
  word that was put together from them.
* `Instruction.WellFormed`: the instructions that words stand for.
* `ofWord?_encode`, `encode_of_ofWord?`: decoding and encoding undo each other.
* `Word.SameShift`: words that differ in the digit of a shift that says nothing.
* `decode_exact`: the main theorem.
-/

namespace Chip8

theorem Word.val_x (w : Word) : (Word.x w).val = w.toNat / 256 % 16 := rfl

theorem Word.val_y (w : Word) : (Word.y w).val = w.toNat / 16 % 16 := rfl

namespace Instruction

/-! ## The digits of a word -/

section Digits

variable {family rest k : ℕ} {x y : Register} {kk : UInt8} {w : Word}

theorem toNat_wordOf (hf : family < 16) (hr : rest < 4096) :
    (wordOf family rest).toNat = family * 4096 + rest := by
  unfold wordOf
  rw [UInt16.toNat_ofNat', Nat.mod_eq_of_lt (by omega)]

theorem operandsXK_lt (x : Register) (kk : UInt8) : operandsXK x kk < 4096 := by
  have hkk := kk.toNat_lt
  unfold operandsXK
  omega

theorem operandsXY_lt (x y : Register) (hk : k < 16) : operandsXY x y k < 4096 := by
  unfold operandsXY
  omega

theorem family_wordOf (hf : family < 16) (hr : rest < 4096) :
    Word.family (wordOf family rest) = family := by
  unfold Word.family
  rw [toNat_wordOf hf hr]
  omega

theorem toNat_addr_wordOf (hf : family < 16) (hr : rest < 4096) :
    (Word.addr (wordOf family rest)).toNat = rest := by
  rw [Word.toNat_addr, toNat_wordOf hf hr]
  omega

theorem addr_wordOf (hf : family < 16) {addr : UInt16} (ha : addr < 0x1000) :
    Word.addr (wordOf family addr.toNat) = addr :=
  UInt16.toNat_inj.mp (toNat_addr_wordOf hf (UInt16.lt_iff_toNat_lt.mp ha))

theorem x_wordOf_operandsXK (hf : family < 16) :
    Word.x (wordOf family (operandsXK x kk)) = x := by
  have hkk := kk.toNat_lt
  apply Fin.ext
  rw [Word.val_x, toNat_wordOf hf (operandsXK_lt x kk)]
  unfold operandsXK
  omega

theorem kk_wordOf (hf : family < 16) : Word.kk (wordOf family (operandsXK x kk)) = kk := by
  have hkk := kk.toNat_lt
  apply UInt8.toNat_inj.mp
  rw [Word.toNat_kk, toNat_wordOf hf (operandsXK_lt x kk)]
  unfold operandsXK
  omega

theorem x_wordOf_operandsXY (hf : family < 16) (hk : k < 16) :
    Word.x (wordOf family (operandsXY x y k)) = x := by
  apply Fin.ext
  rw [Word.val_x, toNat_wordOf hf (operandsXY_lt x y hk)]
  unfold operandsXY
  omega

theorem y_wordOf (hf : family < 16) (hk : k < 16) :
    Word.y (wordOf family (operandsXY x y k)) = y := by
  apply Fin.ext
  rw [Word.val_y, toNat_wordOf hf (operandsXY_lt x y hk)]
  unfold operandsXY
  omega

theorem toNat_n_wordOf (hf : family < 16) (hk : k < 16) :
    (Word.n (wordOf family (operandsXY x y k))).toNat = k := by
  rw [Word.toNat_n, toNat_wordOf hf (operandsXY_lt x y hk)]
  unfold operandsXY
  omega

theorem n_wordOf (hf : family < 16) (hk : k < 16) :
    Word.n (wordOf family (operandsXY x y k)) = UInt8.ofNat k := by
  apply UInt8.toNat_inj.mp
  rw [toNat_n_wordOf hf hk, UInt8.toNat_ofNat', Nat.mod_eq_of_lt (by omega)]

/-- A word is its first digit with the others behind it. -/
theorem wordOf_eq (hf : Word.family w = family) (hr : rest = w.toNat % 4096) :
    wordOf family rest = w := by
  have hw : family * 4096 + rest = w.toNat := by
    unfold Word.family at hf
    omega
  unfold wordOf
  rw [hw, UInt16.ofNat_toNat]

theorem wordOf_addr (hf : Word.family w = family) : wordOf family (Word.addr w).toNat = w :=
  wordOf_eq hf (Word.toNat_addr w)

theorem wordOf_operandsXK (hf : Word.family w = family) (hkk : (Word.kk w).toNat = kk.toNat) :
    wordOf family (operandsXK (Word.x w) kk) = w := by
  apply wordOf_eq hf
  unfold operandsXK
  rw [← hkk, Word.val_x, Word.toNat_kk]
  omega

theorem wordOf_operandsXY (hf : Word.family w = family) (hn : (Word.n w).toNat = k) :
    wordOf family (operandsXY (Word.x w) (Word.y w) k) = w := by
  apply wordOf_eq hf
  unfold operandsXY
  rw [← hn, Word.val_x, Word.val_y, Word.toNat_n]
  omega

end Digits

/-! ## There and back -/

variable {instruction : Instruction Register} {w : Word}

/-- The instructions that words stand for. Two words of family `0` do not stand for a routine. -/
structure WellFormed (instruction : Instruction Register) : Prop where
  fits : instruction.Fits
  ne_clear : instruction ≠ .system 0x0E0
  ne_ret : instruction ≠ .system 0x0EE

theorem ofArithmetic?_operationDigit {ρ : Type} (op : Operation) (x y : ρ) :
    ofArithmetic? x y (operationDigit op) = some (.combine op x y) := by
  cases op with
  | _ => rfl

theorem operationDigit_lt (op : Operation) : operationDigit op < 16 := by
  cases op with
  | _ => decide

theorem ofWord?_encodeTest (test : Test Register) :
    ofWord? (encodeTest test) = some (.skip test) := by
  cases test with
  | equalByte x kk | unequalByte x kk =>
    simp [encodeTest, ofWord?, ofDigits?, family_wordOf, operandsXK_lt, x_wordOf_operandsXK,
      kk_wordOf]
  | equal x y | unequal x y =>
    simp [encodeTest, ofWord?, ofDigits?, family_wordOf, operandsXY_lt, x_wordOf_operandsXY,
      y_wordOf, n_wordOf]
  | keyDown x | keyUp x =>
    simp [encodeTest, ofWord?, ofDigits?, family_wordOf, operandsXK_lt, x_wordOf_operandsXK,
      kk_wordOf, ofKeyTest?]

/-- The word of an instruction stands for it, whatever the digit that a shift leaves out. -/
theorem ofWord?_encode (h : instruction.WellFormed) (y : Register) :
    ofWord? (encode y instruction) = some instruction := by
  cases instruction with
  | clear => exact (by decide : ofWord? 0x00E0 = some .clear)
  | ret => exact ofWord?_eq_ret_iff.mpr rfl
  | system addr =>
    have ha : addr < 0x1000 := h.fits
    have hrest : addr.toNat < 4096 := UInt16.lt_iff_toNat_lt.mp ha
    have not_clear : addr ≠ 0x0E0 := fun same => h.ne_clear (congrArg system same)
    have not_ret : addr ≠ 0x0EE := fun same => h.ne_ret (congrArg system same)
    simp [encode, ofWord?, ofDigits?, family_wordOf, hrest, addr_wordOf, ha, ofSystem, not_clear,
      not_ret]
  | jump addr | call addr | loadIndex addr | jumpOffset addr =>
    have ha : addr < 0x1000 := h.fits
    have hrest : addr.toNat < 4096 := UInt16.lt_iff_toNat_lt.mp ha
    simp [encode, ofWord?, ofDigits?, family_wordOf, hrest, addr_wordOf, ha]
  | skip test => exact ofWord?_encodeTest test
  | loadByte x kk | addByte x kk | random x kk =>
    simp [encode, ofWord?, ofDigits?, family_wordOf, operandsXK_lt, x_wordOf_operandsXK, kk_wordOf]
  | combine op x z =>
    have hop := operationDigit_lt op
    simp [encode, ofWord?, ofDigits?, family_wordOf, operandsXY_lt, hop, x_wordOf_operandsXY,
      y_wordOf, toNat_n_wordOf, ofArithmetic?_operationDigit]
  | shiftRight x | shiftLeft x =>
    simp [encode, ofWord?, ofDigits?, family_wordOf, operandsXY_lt, x_wordOf_operandsXY,
      toNat_n_wordOf, ofArithmetic?]
  | draw x z n =>
    have hn : n.toNat < 16 := UInt8.lt_iff_toNat_lt.mp h.fits
    simp [encode, ofWord?, ofDigits?, family_wordOf, operandsXY_lt, hn, x_wordOf_operandsXY,
      y_wordOf, n_wordOf]
  | _ =>
    simp [encode, ofWord?, ofDigits?, family_wordOf, operandsXK_lt, x_wordOf_operandsXK,
      kk_wordOf, ofTransfer?]

theorem encode_ofSystem (y : Register) (addr : UInt16) :
    encode y (ofSystem addr) = wordOf 0x0 addr.toNat := by
  unfold ofSystem
  split
  · next h => rw [h]; rfl
  · split
    · next h => rw [h]; rfl
    · rfl

/-- What a word stands for has that word, with the word's own digit where a shift leaves one out. -/
theorem encode_of_ofWord? (h : ofWord? w = some instruction) :
    encode (Word.y w) instruction = w := by
  unfold ofWord? ofDigits? at h
  split at h
  case h_1 hf => cases h; exact (encode_ofSystem _ _).trans (wordOf_addr hf)
  case h_2 hf | h_3 hf | h_11 hf | h_12 hf => cases h; exact wordOf_addr hf
  case h_4 hf | h_5 hf | h_7 hf | h_8 hf | h_13 hf => cases h; exact wordOf_operandsXK hf rfl
  case h_6 hf | h_10 hf =>
    split at h
    · next hn => cases h; exact wordOf_operandsXY hf (congrArg UInt8.toNat hn)
    · cases h
  case h_9 hf =>
    unfold ofArithmetic? at h
    split at h <;> cases h <;> exact wordOf_operandsXY hf ‹_›
  case h_14 hf => cases h; exact wordOf_operandsXY hf rfl
  case h_15 hf =>
    unfold ofKeyTest? at h
    split at h <;> cases h <;> exact wordOf_operandsXK hf ‹_›
  case h_16 hf =>
    unfold ofTransfer? at h
    split at h <;> cases h <;> exact wordOf_operandsXK hf ‹_›
  case h_17 => cases h

theorem wellFormed_of_ofWord? (h : ofWord? w = some instruction) : instruction.WellFormed := by
  refine ⟨fits_of_ofWord? h, ?_, ?_⟩
  · rintro rfl
    have hw : w = 0x00E0 := (encode_of_ofWord? h).symm
    rw [hw] at h
    exact absurd h (by decide)
  · rintro rfl
    have hw : w = 0x00EE := (encode_of_ofWord? h).symm
    rw [hw] at h
    exact absurd h (by decide)

/-- A word stands for an instruction just if it is the instruction's word. -/
theorem ofWord?_eq_some_iff :
    ofWord? w = some instruction ↔ instruction.WellFormed ∧ w = encode (Word.y w) instruction := by
  constructor
  · exact fun h => ⟨wellFormed_of_ofWord? h, (encode_of_ofWord? h).symm⟩
  · rintro ⟨wellFormed, hw⟩
    rw [hw]
    exact ofWord?_encode wellFormed _

end Instruction

/-! ## Two words for one instruction -/

/-- Whether both words are `8xy6`, or both are `8xyE`, with the same x. -/
def Word.SameShift (v w : Word) : Prop :=
  family v = 0x8 ∧ family w = 0x8 ∧ x v = x w ∧ (n v = 0x6 ∧ n w = 0x6 ∨ n v = 0xE ∧ n w = 0xE)
  deriving Decidable

namespace Instruction

variable {instruction : Instruction Register} {v w : Word}

theorem sameShift_shiftRight (x y z : Register) :
    Word.SameShift (encode y (.shiftRight x)) (encode z (.shiftRight x)) := by
  simp [Word.SameShift, encode, family_wordOf, operandsXY_lt, x_wordOf_operandsXY, n_wordOf]

theorem sameShift_shiftLeft (x y z : Register) :
    Word.SameShift (encode y (.shiftLeft x)) (encode z (.shiftLeft x)) := by
  simp [Word.SameShift, encode, family_wordOf, operandsXY_lt, x_wordOf_operandsXY, n_wordOf]

/-- What is not a shift has one word only. -/
theorem sameShift_of_ofWord? (hv : ofWord? v = some instruction) (hw : ofWord? w = some instruction)
    (hne : v ≠ w) : Word.SameShift v w := by
  rw [← encode_of_ofWord? hv, ← encode_of_ofWord? hw] at hne ⊢
  cases instruction with
  | shiftRight x => exact sameShift_shiftRight x _ _
  | shiftLeft x => exact sameShift_shiftLeft x _ _
  | _ => exact absurd rfl hne

theorem exists_ofWord?_of_sameShift (h : Word.SameShift v w) :
    ∃ instruction, ofWord? v = some instruction ∧ ofWord? w = some instruction := by
  obtain ⟨hv, hw, hx, ⟨nv, nw⟩ | ⟨nv, nw⟩⟩ := h
  · refine ⟨.shiftRight (Word.x w), ?_, ?_⟩
    · simp [ofWord?, ofDigits?, hv, nv, ofArithmetic?, hx]
    · simp [ofWord?, ofDigits?, hw, nw, ofArithmetic?]
  · refine ⟨.shiftLeft (Word.x w), ?_, ?_⟩
    · simp [ofWord?, ofDigits?, hv, nv, ofArithmetic?, hx]
    · simp [ofWord?, ofDigits?, hw, nw, ofArithmetic?]

/-- **Main theorem.** An instruction whose operands fit is what its own word stands for; of the
    routines, two have their words taken away by other instructions. A word is decoded if it is the
    word of such an instruction, to just this instruction, and its own digit where a shift leaves
    one out makes it the same word again. Every other word is refused by its number. So two words
    stand for one instruction only if they are words of one shift. -/
theorem decode_exact :
    (∀ (instruction : Instruction Register) (y : Register), instruction.WellFormed →
      decode (encode y instruction) = .ok instruction) ∧
    (∀ w, (∃ instruction, decode w = .ok instruction) ↔
      ∃ instruction y, instruction.WellFormed ∧ w = encode y instruction) ∧
    (∀ w instruction, decode w = .ok instruction →
      instruction.WellFormed ∧ encode (Word.y w) instruction = w) ∧
    (∀ w, (¬∃ instruction y, instruction.WellFormed ∧ w = encode y instruction) →
      decode w = .error (.unknownInstruction w)) ∧
    ∀ v w, v ≠ w → ((∃ instruction, decode v = .ok instruction ∧ decode w = .ok instruction) ↔
      Word.SameShift v w) := by
  have back {instruction : Instruction Register} (h : instruction.WellFormed) (y : Register) :
      decode (encode y instruction) = .ok instruction :=
    decode_eq_ok_iff.mpr (ofWord?_encode h y)
  have forth {w : Word} {instruction : Instruction Register} (h : decode w = .ok instruction) :
      instruction.WellFormed ∧ encode (Word.y w) instruction = w := by
    obtain ⟨wellFormed, hw⟩ := ofWord?_eq_some_iff.mp (decode_eq_ok_iff.mp h)
    exact ⟨wellFormed, hw.symm⟩
  refine ⟨fun _ y h => back h y, fun w => ⟨?_, ?_⟩, fun _ _ => forth, fun w none => ?_, ?_⟩
  · rintro ⟨instruction, h⟩
    exact ⟨instruction, _, (forth h).1, (forth h).2.symm⟩
  · rintro ⟨instruction, y, wellFormed, rfl⟩
    exact ⟨instruction, back wellFormed y⟩
  · cases h : decode w with
    | ok instruction => exact absurd ⟨instruction, _, (forth h).1, (forth h).2.symm⟩ none
    | error fault => rw [(decode_eq_error_iff.mp h).2]
  · intro v w hne
    simp only [decode_eq_ok_iff]
    constructor
    · rintro ⟨instruction, hv, hw⟩
      exact sameShift_of_ofWord? hv hw hne
    · exact exists_ofWord?_of_sameShift

/-- The routine next to the word that blanks the screen, two words of one shift, and a word with
    another digit in the last place than `5xy0` has. -/
theorem decode_exact_of_neighbours :
    (system 0x0E1 : Instruction Register).WellFormed ∧
      decode (encode 0 (.system 0x0E1)) = .ok (.system 0x0E1) ∧
      decode 0x8AB6 = .ok (.shiftRight 0xA) ∧ encode (Word.y 0x8AB6) (.shiftRight 0xA) = 0x8AB6 ∧
      (0x8AB6 : Word) ≠ 0x8A06 ∧ Word.SameShift 0x8AB6 0x8A06 ∧
      (∃ instruction, decode 0x8AB6 = .ok instruction ∧ decode 0x8A06 = .ok instruction) ∧
      (¬∃ instruction y, instruction.WellFormed ∧ 0x5121 = encode y instruction) ∧
      decode 0x5121 = .error (.unknownInstruction 0x5121) := by
  obtain ⟨back, exists_iff, forth, refused, shared_iff⟩ := decode_exact
  have wellFormed : (system 0x0E1 : Instruction Register).WellFormed :=
    ⟨by decide, by decide, by decide⟩
  have decoded : decode 0x8AB6 = .ok (.shiftRight 0xA) := decode_eq_ok_iff.mpr (by decide)
  have different : (0x8AB6 : Word) ≠ 0x8A06 := by decide
  have same : Word.SameShift 0x8AB6 0x8A06 := by decide
  have no_word : ¬∃ instruction y, instruction.WellFormed ∧ 0x5121 = encode y instruction := by
    rw [← exists_iff]
    rintro ⟨instruction, h⟩
    have none : ofWord? 0x5121 = none := by decide
    rw [decode_eq_ok_iff, none] at h
    cases h
  exact ⟨wellFormed, back _ 0 wellFormed, decoded, (forth _ _ decoded).2, different, same,
    (shared_iff _ _ different).mpr same, no_word, refused _ no_word⟩

end Instruction

end Chip8
