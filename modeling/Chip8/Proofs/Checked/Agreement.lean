import Chip8.Proofs.Checked.Basic
import Chip8.Proofs.Reachable

/-!
# No check fails

On a machine that comes about, every checked operation has an outcome, and it is the outcome of
the operation itself: no table is left, and nothing wraps that is not meant to.

* `Checked.effect_eq`, `Checked.apply_eq`: one instruction.
* `Checked.operate_eq`: every operation, on a machine within its bounds.
* `operate_eq_checked`: the bounds and the checks of all machines that come about.
-/

namespace Chip8.Checked

/-! ## Tables -/

theorem set_of_lt {α : Type} {n k : ℕ} (table : Vector α n) (a : α) (h : k < n) :
    set table k a = some (table.set k a h) := dif_pos h

@[simp] theorem peek_eq (m : Memory) (a : UInt16) : peek m a = some (m.peek a) := by
  unfold peek
  rw [Memory.toNat_masked]
  exact Vector.getElem?_eq_getElem (Memory.cell a).isLt

@[simp] theorem poke_eq (m : Memory) (a : UInt16) (b : UInt8) : poke m a b = some (m.poke a b) := by
  unfold poke
  rw [Memory.toNat_masked, set_of_lt _ _ (Memory.cell a).isLt]
  rfl

@[simp] theorem register_eq (s : State) (x : Register) : s.v[x.val]? = some (s.v.get x) :=
  Vector.getElem?_eq_getElem x.isLt

@[simp] theorem setV_eq (s : State) (x : Register) (b : UInt8) :
    setV s x.val b = some (s.setV x b) := by
  unfold setV
  rw [set_of_lt _ _ x.isLt]
  rfl

/-- Two bytes side by side. -/
theorem word_eq (left right : UInt8) :
    left.toUInt16 <<< 8 ||| right.toUInt16 = UInt16.ofNat (256 * left.toNat + right.toNat) := by
  have hl := left.toNat_lt
  have hr := right.toNat_lt
  have shifted : left.toNat <<< 8 % 2 ^ 16 = left.toNat <<< 8 := by
    rw [Nat.shiftLeft_eq]
    exact Nat.mod_eq_of_lt (by omega)
  apply UInt16.toNat_inj.mp
  rw [UInt16.toNat_or, UInt16.toNat_shiftLeft, UInt8.toNat_toUInt16, UInt8.toNat_toUInt16,
    UInt16.toNat_ofNat']
  change left.toNat <<< 8 % 2 ^ 16 ||| right.toNat = _
  rw [shifted, ← Nat.shiftLeft_add_eq_or_of_lt hr, Nat.shiftLeft_eq]
  omega

@[simp] theorem fetch_eq (s : State) : fetch s = some s.fetch := by
  simp only [fetch, peek_eq, Option.bind_eq_bind, Option.bind_some, word_eq]
  rfl

/-! ## Decoding -/

theorem toNat_secondDigit (w : Word) : ((w &&& 0x0F00) >>> 8).toNat = (Word.x w).val := by
  rw [UInt16.toNat_shiftRight, UInt16.toNat_and]
  change (w.toNat &&& 0x0F00) >>> 8 = w.toNat / 256 % 16
  rw [Nat.shiftRight_and_distrib, Nat.shiftRight_eq_div_pow]
  exact Nat.and_two_pow_sub_one_eq_mod (w.toNat / 256) 4

theorem toNat_thirdDigit (w : Word) : ((w &&& 0x00F0) >>> 4).toNat = (Word.y w).val := by
  rw [UInt16.toNat_shiftRight, UInt16.toNat_and]
  change (w.toNat &&& 0x00F0) >>> 4 = w.toNat / 16 % 16
  rw [Nat.shiftRight_and_distrib, Nat.shiftRight_eq_div_pow]
  exact Nat.and_two_pow_sub_one_eq_mod (w.toNat / 16) 4

/-- The digits that name registers are below sixteen. -/
theorem decode_eq (w : Word) :
    decode w = (Instruction.ofWord? w).map (Instruction.map Fin.val) := by
  unfold decode Instruction.ofWord?
  rw [toNat_secondDigit, toNat_thirdDigit, Instruction.ofDigits?_map]

/-! ## Loops -/

theorem ofNat_succ (k : ℕ) : UInt16.ofNat (k + 1) = UInt16.ofNat k + 1 := by
  rw [UInt16.ofNat_add]
  rfl

theorem paint_eq (screen : Screen) (x y : ℕ) (bits : UInt8) :
    paint screen x y bits = some (screen.paint x y bits, screen.collides x y bits) := by
  have inside : ∀ column ∈ columns x, column < 64 := by
    intro column hc
    obtain ⟨bit, -, rfl⟩ := List.mem_map.mp hc
    exact Nat.mod_lt _ (by decide)
  have hy : y % 32 < 32 := Nat.mod_lt _ (by decide)
  have row_eq : screen.rows[y % 32]? = some (screen.row y) := Vector.getElem?_eq_getElem hy
  unfold paint
  rw [guard, if_pos inside, row_eq]
  simp only [Option.bind_eq_bind, Option.bind_some, set_of_lt _ _ hy]
  rfl

/-- The rows of a sprite painted one by one, as long as the screen coordinates are small. -/
theorem paintRows_eq (s : State) (x y row count : ℕ) (screen : Screen) (met : Bool)
    (h : y + row + count ≤ 2 ^ 64) :
    paintRows s x y row count screen met =
      let sprite := s.memory.load (s.i + UInt16.ofNat row) count
      let (painted, collided) := screen.paintSprite x (y + row) sprite
      some (painted, met || collided) := by
  induction count generalizing row screen met with
  | zero => simp [paintRows, Memory.load, Screen.paintSprite]
  | succ count ih =>
    have line : sum64 y row = some (y + row) := if_pos (by omega)
    have later : s.i + UInt16.ofNat (row + 1) = s.i + UInt16.ofNat row + 1 := by
      rw [ofNat_succ, UInt16.add_assoc]
    simp only [paintRows, peek_eq, line, paint_eq, Option.bind_eq_bind, Option.bind_some]
    rw [ih (row + 1) _ _ (by omega), later]
    simp only [Memory.load, Screen.paintSprite, Bool.or_assoc, Nat.add_assoc]

theorem storeFrom_eq (s : State) (k count : ℕ) (m : Memory) (h : k + count ≤ 16) :
    storeFrom s k count m =
      some (m.store (s.i + UInt16.ofNat k) ((s.v.toList.drop k).take count)) := by
  induction count generalizing k m with
  | zero => simp [storeFrom, Memory.store]
  | succ count ih =>
    have hk : k < s.v.toList.length := by
      rw [Vector.length_toList]
      omega
    have now : s.v[k]? = some s.v.toList[k] := by
      rw [Vector.getElem?_eq_getElem (by omega)]
      simp
    have later : s.i + UInt16.ofNat (k + 1) = s.i + UInt16.ofNat k + 1 := by
      rw [ofNat_succ, UInt16.add_assoc]
    simp only [storeFrom, now, poke_eq, Option.bind_eq_bind, Option.bind_some]
    rw [ih (k + 1) _ (by omega), later, List.drop_eq_getElem_cons hk, List.take_succ_cons]
    rfl

theorem loadFrom_eq (s : State) (k count : ℕ) (v : Vector UInt8 16) (h : k + count ≤ 16) :
    loadFrom s k count v =
      some (Vector.ofFn fun j : Fin 16 =>
        if k ≤ j.val ∧ j.val < k + count then s.memory.peek (s.i + UInt16.ofNat j.val)
        else v[j]) := by
  induction count generalizing k v with
  | zero =>
    have none_between : ∀ j : Fin 16, ¬ (k ≤ j.val ∧ j.val < k + 0) := by omega
    simp only [loadFrom, none_between, ↓reduceIte, Option.some.injEq]
    apply Vector.ext
    intro j hj
    simp
  | succ count ih =>
    have hk : k < 16 := by omega
    simp only [loadFrom, peek_eq, Option.bind_eq_bind, Option.bind_some, set_of_lt _ _ hk]
    rw [ih (k + 1) _ (by omega)]
    refine congrArg some (Vector.ext fun j hj => ?_)
    simp only [Vector.getElem_ofFn, Fin.getElem_fin, Vector.getElem_set]
    by_cases hjk : k = j
    · subst hjk
      rw [if_neg (by omega), if_pos rfl, if_pos (by omega)]
    · rw [if_neg hjk]
      by_cases inside : k + 1 ≤ j ∧ j < k + 1 + count
      · rw [if_pos inside, if_pos (by omega)]
      · rw [if_neg inside, if_neg (by omega)]

/-! ## Instructions -/

@[simp] theorem combine_eq (s : State) (op : Operation) (x y : Register) :
    combine s op x.val y.val = some (s.combine op x y) := by
  unfold combine State.combine
  simp only [register_eq, Option.bind_eq_bind, Option.bind_some]
  rcases op.result (s.v.get x) (s.v.get y) with ⟨value, flag | flag⟩
  · simp
  · have flag_eq (t : State) : setV t 15 flag = some (t.setFlag flag) := setV_eq t flagRegister flag
    simp [flag_eq]

theorem holds_eq (s : State) (held : HeldKeys) (test : Test Register) :
    holds s held (test.map Fin.val) = some (test.holds s held) := by
  cases test <;>
    simp only [Test.map, holds, register_eq, Option.bind_eq_bind, Option.bind_some] <;> rfl

theorem product16_eq (b : UInt8) :
    product16 (b &&& 0xF).toUInt16 5 = some (UInt16.ofNat (b.toNat % 16 * 5)) := by
  have digit : (b &&& 0xF).toNat = b.toNat % 16 := by
    rw [UInt8.toNat_and]
    exact Nat.and_two_pow_sub_one_eq_mod b.toNat 4
  have small : b.toNat % 16 < 16 := Nat.mod_lt _ (by decide)
  have fits : (b &&& 0xF).toUInt16.toNat * (5 : UInt16).toNat < 0x10000 := by
    rw [UInt8.toNat_toUInt16, digit]
    change b.toNat % 16 * 5 < 0x10000
    omega
  unfold product16
  rw [if_pos fits]
  refine congrArg some (UInt16.toNat_inj.mp ?_)
  rw [UInt16.toNat_mul, UInt8.toNat_toUInt16, digit, UInt16.toNat_ofNat']
  rfl

theorem sum16_register (x : Register) :
    sum16 (UInt16.ofNat x.val) 1 = some (UInt16.ofNat (x.val + 1)) := by
  have hx := x.isLt
  have fits : (UInt16.ofNat x.val).toNat + (1 : UInt16).toNat < 0x10000 := by
    rw [UInt16.toNat_ofNat', Nat.mod_eq_of_lt (by omega)]
    change x.val + 1 < 0x10000
    omega
  unfold sum16
  rw [if_pos fits, ofNat_succ]

@[simp] theorem passBlock_eq (s : State) (x : Register) :
    passBlock s x.val = some (s.advanceIndex (UInt16.ofNat (x.val + 1))) := by
  unfold passBlock
  rw [sum16_register]
  rfl

/-- Every instruction that draws no random byte has its effect without a failed check. -/
theorem effect_eq (s : State) (byte : UInt8) {instruction : Instruction Register}
    (h : instruction.takesByte = false) :
    effect s (instruction.map Fin.val) = some (s.effect byte instruction) := by
  have flag_eq (t : State) (flag : UInt8) : setV t 15 flag = some (t.setFlag flag) :=
    setV_eq t flagRegister flag
  cases instruction with
  | random x kk => cases h
  | combine op x y => exact combine_eq s op x y
  | draw x y n =>
    have hy := (s.v.get y).toNat_lt
    have hn := n.toNat_lt
    have painted :=
      paintRows_eq s (s.v.get x).toNat (s.v.get y).toNat 0 n.toNat s.screen false (by omega)
    simp only [Instruction.map, effect, register_eq, painted, Option.bind_eq_bind, Option.bind_some,
      flag_eq]
    simp [State.effect, State.drawSprite]
  | awaitKey x => exact dif_pos x.isLt
  | loadGlyph x =>
    simp only [Instruction.map, effect, register_eq, product16_eq, Option.bind_eq_bind,
      Option.bind_some]
    rfl
  | storeDecimal x =>
    simp only [Instruction.map, effect, register_eq, poke_eq, Option.bind_eq_bind, Option.bind_some]
    have second : s.i + 2 = s.i + 1 + 1 := (UInt16.add_assoc s.i 1 1).symm
    simp [State.effect, State.storeDecimal, decimalDigits, Memory.store, second]
  | storeRegisters x =>
    have hx := x.isLt
    simp only [Instruction.map, effect, storeFrom_eq s 0 (x.val + 1) s.memory (by omega),
      passBlock_eq, Option.bind_eq_bind, Option.bind_some]
    simp [State.effect, State.storeRegisters]
  | loadRegisters x =>
    have hx := x.isLt
    have upTo (k : Fin 16) : 0 ≤ k.val ∧ k.val < 0 + (x.val + 1) ↔ k ≤ x := by
      rw [Fin.le_def]
      omega
    simp only [Instruction.map, effect, loadFrom_eq s 0 (x.val + 1) s.v (by omega),
      passBlock_eq, Option.bind_eq_bind, Option.bind_some, upTo]
    rfl
  | _ =>
    simp only [Instruction.map, effect, register_eq, setV_eq, flag_eq, Option.bind_eq_bind,
      Option.bind_some]
    rfl

theorem nextByte_eq {source : ByteSource} (h : source.WellPlaced) :
    nextByte source = some (source.peek, source.advance) := by
  cases source with
  | generator stream taken => rfl
  | replay bytes cursor =>
    by_cases empty : bytes.size = 0
    · simp [nextByte, ByteSource.peek, ByteSource.advance, empty]
    · have inside : cursor < bytes.size := by simpa [ByteSource.WellPlaced, empty] using h
      simp [nextByte, ByteSource.peek, ByteSource.advance, empty, inside]

theorem sum16_eq {addr : UInt16} (h : addr < 0x1000) (b : UInt8) :
    sum16 addr b.toUInt16 = some (addr + b.toUInt16) := by
  have ha : addr.toNat < 4096 := UInt16.lt_iff_toNat_lt.mp h
  have hb := b.toNat_lt
  exact if_pos (by rw [UInt8.toNat_toUInt16]; omega)

/-- A decoded instruction is performed without a failed check, and with the same result. -/
theorem apply_eq {s : State} {source : ByteSource} (held : HeldKeys)
    {instruction : Instruction Register} (hd : s.calls.depth ≤ 32) (hs : source.WellPlaced)
    (hfits : instruction.Fits) :
    apply s source held (instruction.map Fin.val) =
      some ((s.perform held source.peek instruction).map fun state =>
        (state, if instruction.takesByte then source.advance else source)) := by
  have effected {other : Instruction Register} (h : other.takesByte = false) :
      (do return .ok (← effect s (other.map Fin.val), source)) =
        some (.ok (s.effect source.peek other, source) : Except Fault (State × ByteSource)) := by
    rw [effect_eq s source.peek h]
    rfl
  cases instruction with
  | ret =>
    simp only [Instruction.map, apply, State.perform, State.flow, State.follow, State.effect,
      CallStack.pop?_eq]
    by_cases empty : s.calls.depth = 0
    · simp [empty, Except.map]
    · have inside : s.calls.depth - 1 < 32 := by omega
      simp [empty, inside, Except.map, Instruction.takesByte]
  | call addr =>
    simp only [Instruction.map, apply, State.perform, State.flow, State.follow, State.effect]
    by_cases full : 32 ≤ s.calls.depth
    · have refused : s.calls.push? s.pc = none := (CallStack.push?_eq_none_iff _ _).mpr full
      rw [if_pos full, refused]
      rfl
    · have inside : s.calls.depth < 32 := by omega
      have pushed : s.calls.push? s.pc =
          some ⟨s.calls.slots.set s.calls.depth s.pc inside, s.calls.depth + 1⟩ := dif_pos inside
      have more : sum64 s.calls.depth 1 = some (s.calls.depth + 1) := if_pos (by omega)
      rw [if_neg full, set_of_lt _ _ inside, more, pushed]
      rfl
  | jump addr => rfl
  | jumpOffset addr =>
    have first : s.v[0]? = some (s.v.get offsetRegister) := rfl
    simp only [Instruction.map, apply, first, Option.bind_eq_bind, Option.bind_some]
    rw [sum16_eq hfits]
    rfl
  | skip test =>
    simp only [Instruction.map, apply, holds_eq, State.perform, State.flow, Option.bind_eq_bind,
      Option.bind_some]
    cases test.holds s held <;> rfl
  | random x kk =>
    simp only [Instruction.map, apply, nextByte_eq hs, setV_eq, Option.bind_eq_bind,
      Option.bind_some]
    rfl
  | _ => exact effected (by rfl)

/-! ## Operations -/

variable {m : Machine}

theorem execute_eq (h : m.Sound) (held : HeldKeys) (w : Word) :
    execute m held w = some ((m.execute held w).result, (m.execute held w).machine) := by
  unfold execute Machine.execute
  rw [decode_eq]
  cases m.state.isWaiting with
  | true => rfl
  | false =>
    cases hw : Instruction.ofWord? w with
    | none => simp [Instruction.decode, hw]
    | some instruction =>
      have applied := apply_eq held h.depth_le h.wellPlaced (Instruction.fits_of_ofWord? hw)
      simp only [Instruction.decode, hw, Machine.perform, Option.map_some, applied,
        Option.bind_eq_bind, Option.bind_some]
      cases m.state.perform held m.source.peek instruction <;> rfl

theorem step_eq (h : m.Sound) (held : HeldKeys) :
    step m held = some ((m.step held).result, (m.step held).machine) := by
  unfold step Machine.step
  rw [fetch_eq]
  cases m.state.isWaiting with
  | true => rfl
  | false =>
    simp only [execute_eq h, Option.bind_eq_bind, Option.bind_some]
    cases result : (m.execute held m.state.fetch).result with
    | ok _ => simp [State.moveOn, instructionSize]
    | error fault => simp [result]

theorem placeProgram_eq (m : Memory) (image : Array UInt8) :
    placeProgram m image (min image.size 3584) = some (m.withProgram image) := by
  have size_eq : (image.extract 0 (min image.size 3584)).size = min image.size 3584 := by
    rw [Array.size_extract]
    omega
  have zeroed : zeroFrom m.cells 0x200 =
      some (Vector.ofFn fun k => if k.val < 0x200 then m.cells[k] else 0) := if_pos (by decide)
  have cut : firstBytes image (min image.size 3584) =
      some (image.extract 0 (min image.size 3584)) := if_pos (by omega)
  have start_eq : Memory.programStart.toNat = 0x200 := rfl
  simp only [placeProgram, zeroed, cut, Option.bind_eq_bind, Option.bind_some]
  unfold copyAt Memory.withProgram
  rw [if_pos (by omega), size_eq, start_eq, Option.bind_some]
  refine congrArg (fun cells => some (Memory.mk cells)) (Vector.ext fun k hk => ?_)
  simp only [Vector.getElem_ofFn, Fin.getElem_fin]
  by_cases below : k < 0x200
  · rw [if_neg (by omega), if_pos below, if_pos below]
  · rw [if_neg below, if_neg below]
    by_cases taken : k - 0x200 < min image.size 3584
    · rw [if_pos (by omega), Array.getElem?_extract, if_pos (by omega), Nat.zero_add]
    · have gone : image.size ≤ k - 0x200 := by omega
      rw [if_neg (by omega), Array.getElem?_eq_none gone]
      rfl

theorem load_eq (m : Machine) (image : Array UInt8) :
    load m image = some ((m.load image).result, (m.load image).machine) := by
  have loaded_eq : (if min image.size 3584 < image.size
      then Loaded.truncated (min image.size 3584) image.size else .complete (min image.size 3584)) =
      Loaded.ofSize image.size := by
    unfold Loaded.ofSize Memory.programCapacity
    by_cases fits : image.size ≤ 3584
    · rw [if_neg (by omega), if_pos fits, Nat.min_eq_left fits]
    · rw [if_pos (by omega), if_neg fits, Nat.min_eq_right (by omega)]
  simp only [load, placeProgram_eq, loaded_eq, Option.bind_eq_bind, Option.bind_some]
  rfl

theorem read_eq (m : Machine) (outcomes : List ReadOutcome) :
    read m outcomes = some ((m.read outcomes).result, (m.read outcomes).machine) := by
  unfold read Machine.read
  cases readToEnd outcomes with
  | ok image => exact load_eq m image
  | error fault => rfl

theorem hear_eq (m : Machine) (key : UInt8) : hear m key = some (m.hear key) := by
  unfold hear Machine.hear State.hear
  cases m.state.awaiting with
  | none => rfl
  | some x =>
    simp only [setV_eq, Option.bind_eq_bind, Option.bind_some]
    rfl

/-- On a machine within its bounds, no operation fails a check. -/
theorem operate_eq (h : m.Sound) (held : HeldKeys) (op : Machine.Op) :
    operate m held op = some ((m.operate held op).result, (m.operate held op).machine) := by
  cases op with
  | load image => simp [operate, load_eq, Machine.operate, Outcome.map]
  | read outcomes => simp [operate, read_eq, Machine.operate, Outcome.map]
  | execute w => simp [operate, execute_eq h, Machine.operate, Outcome.map]
  | step => simp [operate, step_eq h, Machine.operate, Outcome.map]
  | hear key => simp [operate, hear_eq, Machine.operate]
  | tick => rfl
  | reset => rfl
  | takeFrame => rfl

end Chip8.Checked

namespace Chip8.Machine

/-- **Main theorem.** Every machine that comes about is within its bounds, and whichever operation
    it is asked for next, no look into a table leaves the table and no sum leaves its width. -/
theorem operate_eq_checked {m : Machine} (h : m.Reachable) :
    m.state.calls.depth ≤ 32 ∧ m.state.i ≤ 0xFFF ∧ (∀ x ∈ m.state.awaiting, x.val < 16) ∧
      (∀ bytes cursor, m.source = .replay bytes cursor → bytes.size ≠ 0 → cursor < bytes.size) ∧
      ∀ held op, Checked.operate m held op =
        some ((m.operate held op).result, (m.operate held op).machine) := by
  have sound := h.sound
  refine ⟨sound.depth_le, sound.index_le, fun x _ => x.isLt, ?_, Checked.operate_eq sound⟩
  intro bytes cursor source_eq nonempty
  have placed := sound.wellPlaced
  rw [source_eq] at placed
  simpa [ByteSource.WellPlaced, nonempty] using placed

/-- The machine behind a call and a random byte, about to wait for a key. -/
theorem operate_eq_checked_of_open :
    let m := (new (.ofBytes #[7, 9])).run [(.allUp, .execute 0x2FFE), (.allUp, .execute 0xC1FF)]
    m.Reachable ∧ m.state.calls.depth = 1 ∧ m.source = .replay #[7, 9] 1 ∧ 1 < #[7, 9].size ∧
      Checked.operate m .allUp (.execute 0xFF0A) =
        some ((m.operate .allUp (.execute 0xFF0A)).result,
          (m.operate .allUp (.execute 0xFF0A)).machine) := by
  intro m
  have reachable : m.Reachable := Reachable.run (.new (.ofBytes _)) _
  obtain ⟨-, -, -, cursor_lt, checked⟩ := operate_eq_checked reachable
  have source_eq : m.source = .replay #[7, 9] 1 := rfl
  exact ⟨reachable, rfl, source_eq, cursor_lt _ _ source_eq (by decide), checked _ _⟩

end Chip8.Machine
