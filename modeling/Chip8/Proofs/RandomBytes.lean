import Chip8.Proofs.Trace

/-!
# Random bytes in order

One instruction draws random bytes, one byte each time it is performed. Nothing else uses bytes
up: no word that fails, no step that stands still, and no reset, which keeps the source where it
is. So the bytes of a replayed list go to the random instructions of a run in turn, and what a
machine does depends on as many bytes as there are such instructions.

* `peek_drop`: the next byte of a source of which some bytes are used up.
* `get_random`: what the random instruction makes of the next byte.
* `operate_congr`, `run_congr`: machines with equal states and equal bytes to draw.
* `random_bytes_in_order`: the main theorem.
-/

namespace Chip8

/-! ## The byte that comes next -/

namespace ByteSource

theorem upcoming_drop (s : ByteSource) (count k : ℕ) :
    (s.drop count).upcoming k = s.upcoming (count + k) := by
  induction count generalizing s with
  | zero => rw [Nat.zero_add]; rfl
  | succ count ih =>
    show (s.advance.drop count).upcoming k = _
    rw [ih, upcoming_advance]
    congr 1
    omega

theorem wellPlaced_drop {s : ByteSource} (h : s.WellPlaced) (count : ℕ) :
    (s.drop count).WellPlaced := by
  induction count generalizing s with
  | zero => exact h
  | succ count ih => exact ih (wellPlaced_advance h)

/-- The next byte once `count` bytes are used up. -/
theorem peek_drop {s : ByteSource} (h : s.WellPlaced) (count : ℕ) :
    (s.drop count).peek = s.upcoming count := by
  rw [← upcoming_zero (wellPlaced_drop h count), upcoming_drop, Nat.add_zero]

/-- A list is replayed from its start. -/
theorem upcoming_ofBytes (bytes : Array UInt8) (k : ℕ) :
    (ofBytes bytes).upcoming k = bytes[k % bytes.size]?.getD 0 := by
  show bytes[(0 + k) % bytes.size]?.getD 0 = _
  rw [Nat.zero_add]

end ByteSource

/-- The effect of an instruction depends on the random byte only if the instruction takes one. -/
theorem State.effect_of_not_takesByte {instruction : Instruction Register}
    (h : instruction.takesByte = false) (s : State) (byte other : UInt8) :
    s.effect byte instruction = s.effect other instruction := by
  cases instruction with
  | random x kk => cases h
  | _ => rfl

namespace Machine

variable {m n : Machine} {held : HeldKeys} {op : Op} {ops : List (HeldKeys × Op)} {x : Register}
  {kk : UInt8}

/-- The random instruction leaves the next byte in its register, masked. -/
theorem get_random (h : m.instruction? held op = some (.random x kk)) :
    (m.operate held op).machine.state.v.get x = m.source.peek &&& kk := by
  obtain ⟨pc, calls, after⟩ := exists_of_instruction? h
  rw [after]
  exact State.get_setV_self m.state x _

theorem source_operate_eq (m : Machine) (held : HeldKeys) (op : Op) :
    (m.operate held op).machine.source =
      if (m.instruction? held op).any (·.takesByte) then m.source.advance else m.source := by
  rw [source_operate]
  cases hi : m.instruction? held op with
  | none => rfl
  | some instruction =>
    by_cases takes : instruction.takesByte = true
    · simp [takes, ByteSource.drop]
    · simp [takes, ByteSource.drop]

theorem bytesUsed_cons (m : Machine) (held : HeldKeys) (op : Op) (rest : List (HeldKeys × Op)) :
    m.bytesUsed ((held, op) :: rest) =
      (m.instruction? held op).toList.countP (·.takesByte) +
        (m.operate held op).machine.bytesUsed rest :=
  List.countP_append

/-! ## Machines with equal bytes to draw -/

theorem executed?_congr (hstate : n.state = m.state) (held : HeldKeys) (w : Word) :
    n.executed? held w = m.executed? held w := by
  ext instruction
  rw [executed?_eq_some_iff, executed?_eq_some_iff, hstate]

/-- The state decides which instruction is performed. -/
theorem instruction?_congr (hstate : n.state = m.state) (held : HeldKeys) (op : Op) :
    n.instruction? held op = m.instruction? held op := by
  cases op with
  | execute w => exact executed?_congr hstate held w
  | step =>
    unfold instruction?
    rw [hstate, executed?_congr hstate]
  | _ => rfl

/-- If two machines with equal states are handed a word, the results are equal. So are the states
    afterwards, unless a random byte is drawn that is not the same. -/
theorem execute_congr {w : Word} (hstate : n.state = m.state)
    (hbyte : ∀ instruction ∈ m.executed? held w, instruction.takesByte = true →
      n.source.peek = m.source.peek) :
    (n.execute held w).result = (m.execute held w).result ∧
      (n.execute held w).machine.state = (m.execute held w).machine.state := by
  cases m.verdict w with
  | waiting hwait =>
    rw [execute_of_waiting hwait, execute_of_waiting (hstate ▸ hwait)]
    exact ⟨rfl, hstate⟩
  | unknown hwait hw =>
    rw [execute_of_unknown hwait hw, execute_of_unknown (hstate ▸ hwait) hw]
    exact ⟨rfl, hstate⟩
  | faulty hwait instruction fault hw hf =>
    rw [execute_of_fault hwait hw hf, execute_of_fault (hstate ▸ hwait) hw (hstate ▸ hf)]
    exact ⟨rfl, hstate⟩
  | runs hwait instruction hw hf =>
    have executed : m.executed? held w = some instruction :=
      executed?_eq_some_iff.mpr ⟨hwait, hw, hf⟩
    have effect_eq : m.state.effect n.source.peek instruction =
        m.state.effect m.source.peek instruction := by
      by_cases takes : instruction.takesByte = true
      · rw [hbyte instruction executed takes]
      · exact State.effect_of_not_takesByte (Bool.eq_false_iff.mpr takes) _ _ _
    rw [execute_of_runs hwait hw hf, execute_of_runs (hstate ▸ hwait) hw (hstate ▸ hf)]
    refine ⟨rfl, ?_⟩
    unfold performed
    rw [hstate, effect_eq]

/-- So it is with every operation. -/
theorem operate_congr (hstate : n.state = m.state)
    (hbyte : ∀ instruction ∈ m.instruction? held op, instruction.takesByte = true →
      n.source.peek = m.source.peek) :
    (n.operate held op).result = (m.operate held op).result ∧
      (n.operate held op).machine.state = (m.operate held op).machine.state := by
  cases op with
  | load image => exact ⟨rfl, congrArg (·.load image) hstate⟩
  | read outcomes =>
    show (n.read outcomes).result.map _ = (m.read outcomes).result.map _ ∧
      (n.read outcomes).machine.state = (m.read outcomes).machine.state
    unfold read
    split
    · next image _ => exact ⟨rfl, congrArg (·.load image) hstate⟩
    · exact ⟨rfl, hstate⟩
  | execute w =>
    obtain ⟨result_eq, state_eq⟩ := execute_congr (w := w) hstate hbyte
    exact ⟨congrArg (Except.map _) result_eq, state_eq⟩
  | step =>
    show (n.step held).result.map _ = (m.step held).result.map _ ∧
      (n.step held).machine.state = (m.step held).machine.state
    unfold step
    rw [hstate]
    cases hwait : m.state.isWaiting with
    | true => exact ⟨rfl, hstate⟩
    | false =>
      have drawn : ∀ instruction ∈ m.executed? held m.state.fetch,
          instruction.takesByte = true → n.source.peek = m.source.peek := by
        intro instruction executed
        apply hbyte
        unfold instruction?
        rwa [hwait, if_neg Bool.false_ne_true]
      obtain ⟨result_eq, state_eq⟩ := execute_congr hstate drawn
      simp only [Bool.false_eq_true, ↓reduceIte]
      rw [result_eq]
      cases (m.execute held m.state.fetch).result with
      | ok _ => exact ⟨rfl, congrArg State.moveOn state_eq⟩
      | error fault => exact ⟨congrArg (Except.map _) result_eq, state_eq⟩
  | tick => exact ⟨rfl, congrArg State.tick hstate⟩
  | hear key => exact ⟨rfl, congrArg (·.hear key) hstate⟩
  | reset => exact ⟨rfl, rfl⟩
  | takeFrame =>
    show Except.ok (Gain.frame n.takeFrame.1) = Except.ok (Gain.frame m.takeFrame.1) ∧
      n.takeFrame.2.state = m.takeFrame.2.state
    unfold takeFrame
    rw [hstate]
    split
    · exact ⟨rfl, rfl⟩
    · exact ⟨rfl, hstate⟩

/-- Two machines with equal states whose sources agree on the bytes that a run draws go through it
    alike. -/
theorem run_congr (hstate : n.state = m.state)
    (hbytes : n.source.take (m.bytesUsed ops) = m.source.take (m.bytesUsed ops)) :
    (n.run ops).state = (m.run ops).state ∧ n.trace ops = m.trace ops ∧
      (n.outcomes ops).map (·.result) = (m.outcomes ops).map (·.result) := by
  induction ops generalizing m n with
  | nil => exact ⟨hstate, rfl, rfl⟩
  | cons entry rest ih =>
    obtain ⟨held, op⟩ := entry
    have instruction_eq := instruction?_congr hstate held op
    rw [bytesUsed_cons] at hbytes
    -- The bytes are those of this operation, at most one, and those of the rest.
    have bytes : (∀ instruction ∈ m.instruction? held op, instruction.takesByte = true →
          n.source.peek = m.source.peek) ∧
        (n.operate held op).machine.source.take ((m.operate held op).machine.bytesUsed rest) =
          (m.operate held op).machine.source.take
            ((m.operate held op).machine.bytesUsed rest) := by
      rw [source_operate_eq, source_operate_eq, instruction_eq]
      by_cases takes : (m.instruction? held op).any (·.takesByte) = true
      · obtain ⟨instruction, hi, htakes⟩ := (Option.any_eq_true _ _).mp takes
        have one : (m.instruction? held op).toList.countP (·.takesByte) = 1 := by
          simp [hi, htakes]
        rw [one, Nat.add_comm] at hbytes
        obtain ⟨first, later⟩ := List.cons_eq_cons.mp hbytes
        rw [if_pos takes, if_pos takes]
        exact ⟨fun _ _ _ => first, later⟩
      · have none : (m.instruction? held op).toList.countP (·.takesByte) = 0 := by
          rw [List.countP_eq_zero]
          intro instruction hi htakes
          exact takes ((Option.any_eq_true _ _).mpr ⟨_, Option.mem_toList.mp hi, htakes⟩)
        rw [none, Nat.zero_add] at hbytes
        rw [if_neg takes, if_neg takes]
        refine ⟨fun instruction hi htakes => ?_, hbytes⟩
        exact absurd ((Option.any_eq_true _ _).mpr ⟨_, hi, htakes⟩) takes
    obtain ⟨result_eq, state_eq⟩ := operate_congr hstate bytes.1
    obtain ⟨run_eq, trace_eq, outcomes_eq⟩ := ih state_eq bytes.2
    refine ⟨run_eq, ?_, ?_⟩
    · show (n.instruction? held op).toList ++ (n.operate held op).machine.trace rest = _
      rw [instruction_eq, trace_eq]
      rfl
    · exact List.cons_eq_cons.mpr ⟨result_eq, outcomes_eq⟩

/-! ## Runs -/

/-- The random instruction that comes next takes the byte whose number is that of the random
    instructions performed so far. -/
theorem get_random_run {source : ByteSource} (hplaced : source.WellPlaced)
    (h : ((new source).run ops).instruction? held op = some (.random x kk)) :
    (((new source).run ops).operate held op).machine.state.v.get x =
      source.upcoming ((new source).bytesUsed ops) &&& kk := by
  rw [get_random h, source_run]
  exact congrArg (· &&& kk) (ByteSource.peek_drop hplaced _)

/-- **Main theorem.** On a machine that replays a list, the random instruction number `k` of a run,
    counted from zero, takes byte number `k` of the list, which starts over at its end; the empty
    list gives zeros. With any source, an operation uses up a byte just if it performs a random
    instruction, so a run uses up as many bytes as it performs random instructions. Machines with
    equal states, whose sources agree on that many bytes, go through the run with equal results and
    end in equal states. -/
theorem random_bytes_in_order :
    (∀ (bytes : Array UInt8) (ops : List (HeldKeys × Op)) (held : HeldKeys) (op : Op) (x : Register)
        (kk : UInt8),
      let m := (new (.ofBytes bytes)).run ops
      let k := ((new (.ofBytes bytes)).trace ops).countP (·.takesByte)
      m.instruction? held op = some (.random x kk) →
        (m.operate held op).machine.state.v.get x =
          if bytes.size = 0 then 0 else bytes[k % bytes.size]?.getD 0 &&& kk) ∧
    (∀ (m : Machine) (held : HeldKeys) (op : Op), (m.operate held op).machine.source =
      if (m.instruction? held op).any (·.takesByte) then m.source.advance else m.source) ∧
    (∀ (m : Machine) (ops : List (HeldKeys × Op)),
      (m.run ops).source = m.source.drop ((m.trace ops).countP (·.takesByte))) ∧
    ∀ (m n : Machine) (ops : List (HeldKeys × Op)),
      let used := (m.trace ops).countP (·.takesByte)
      n.state = m.state → n.source.take used = m.source.take used →
        (n.run ops).state = (m.run ops).state ∧ n.trace ops = m.trace ops ∧
          (n.outcomes ops).map (·.result) = (m.outcomes ops).map (·.result) := by
  refine ⟨?_, source_operate_eq, source_run, fun m n ops => run_congr⟩
  intro bytes ops held op x kk m k h
  have drawn := get_random_run (ByteSource.wellPlaced_ofBytes bytes) h
  rw [ByteSource.upcoming_ofBytes] at drawn
  rw [drawn]
  by_cases empty : bytes.size = 0
  · rw [if_pos empty, Array.getElem?_eq_none (by omega)]
    exact UInt8.zero_and
  · rw [if_neg empty]
    rfl

/-- A random instruction, a reset, a word that is no instruction, and a tick go before. The
    random instruction behind them takes the second byte all the same. -/
theorem random_bytes_in_order_of_reset :
    let m := (new (.ofBytes #[0x5A, 0xC3])).run
      [(.allUp, .execute 0xC0FF), (.allUp, .reset), (.allUp, .execute 0xF0FF), (.allUp, .tick)]
    m.instruction? .allUp (.execute 0xC10F) = some (.random 1 0x0F) ∧
      (m.operate .allUp (.execute 0xC10F)).machine.state.v.get 1 = 0xC3 &&& 0x0F := by
  intro m
  have draws : m.instruction? .allUp (.execute 0xC10F) = some (.random 1 0x0F) := by decide
  exact ⟨draws, random_bytes_in_order.1 _ _ _ _ _ _ draws⟩

end Machine

end Chip8
