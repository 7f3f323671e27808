import Chip8.Proofs.Trace

/-!
# Loading programs

A program fills the program area: what does not fit is left out, and what was there before gives
way to zeros. So of all the images that were loaded, only the last one is left. The bytes may as
well come from a reader, in pieces of any size and with interruptions; a reader that fails before
it is at its end leaves the machine as it was.

* `Memory.padded`: what an image makes of the program area.
* `Machine.Loads`: a program is loaded, and nothing else changed. This leaves nothing open
  (`Loads.eq_of_padded`), and covers what was loaded before (`Loads.again`).
* `load_leaves_no_residue`: the main theorem on images.
* `joined`, `Ends`: the bytes of a reader, and how it ends.
* `readFrom_append`: the pieces of a reader add up.
* `read_eq_load`: the main theorem on readers.
-/

namespace Chip8

/-! ## The program area -/

namespace Memory

variable {m n : Memory} {a : UInt16} {k : ℕ}

/-- What an image makes of the program area: as much of it as fits, and zeros behind. -/
def padded (image : Array UInt8) : Vector UInt8 3584 :=
  Vector.ofFn fun k => image[k.val]?.getD 0

theorem getElem_padded (image : Array UInt8) (h : k < 3584) :
    (padded image)[k] = image[k]?.getD 0 :=
  Vector.getElem_ofFn h

theorem lt_start_iff : a < 0x200 ↔ a.toNat < 512 := UInt16.lt_iff_toNat_lt

theorem le_last_iff : a ≤ 0xFFF ↔ a.toNat ≤ 4095 := UInt16.le_iff_toNat_le

/-- Addresses in the program area do not wrap. -/
theorem toNat_offset (h : k < 3584) : (0x200 + UInt16.ofNat k).toNat = 0x200 + k := by
  rw [UInt16.toNat_add, UInt16.toNat_ofNat']
  show (512 + k % 65536) % 65536 = 512 + k
  omega

theorem offset_le (h : k < 3584) : 0x200 + UInt16.ofNat k ≤ 0xFFF := by
  rw [le_last_iff, toNat_offset h]
  omega

theorem exists_offset (h : ¬a < 0x200) (hle : a ≤ 0xFFF) :
    ∃ k < 3584, a = 0x200 + UInt16.ofNat k := by
  rw [lt_start_iff] at h
  rw [le_last_iff] at hle
  have inside : a.toNat - 512 < 3584 := by omega
  refine ⟨a.toNat - 512, inside, UInt16.toNat_inj.mp ?_⟩
  rw [toNat_offset inside]
  omega

theorem peek_withProgram (m : Memory) (image : Array UInt8) (h : a ≤ 0xFFF) :
    (m.withProgram image).peek a =
      if a < 0x200 then m.peek a else image[a.toNat - 0x200]?.getD 0 := by
  have cell_eq : (cell a).val = a.toNat := Nat.mod_eq_of_lt (Nat.lt_succ_of_le (le_last_iff.mp h))
  simp only [lt_start_iff, ← cell_eq]
  exact Vector.getElem_ofFn (cell a).isLt

/-- Memories are the same if they agree on the addresses that are no other cell's. -/
theorem ext_peek_of_le (h : ∀ a ≤ 0xFFF, m.peek a = n.peek a) : m = n := by
  apply ext_peek
  intro a
  have bound : (a &&& 0xFFF) ≤ 0xFFF := by
    rw [le_last_iff, UInt16.toNat_and]
    exact Nat.and_le_right
  have cell_eq : cell (a &&& 0xFFF) = cell a := by
    apply Fin.ext
    show (a &&& 0xFFF).toNat % 4096 = a.toNat % 4096
    rw [toNat_masked]
    exact Nat.mod_mod _ _
  have same (memory : Memory) : memory.peek (a &&& 0xFFF) = memory.peek a :=
    congrArg (memory.cells[·]) cell_eq
  rw [← same m, ← same n]
  exact h _ bound

end Memory

/-! ## Images -/

namespace Machine

/-- What it means that `n` is `m` with a program loaded, and not changed otherwise. -/
structure Loads (m : Machine) (image : Array UInt8) (n : Machine) : Prop where
  /-- The program area begins with the image, as much of it as fits. -/
  program {k : ℕ} (h : k < min image.size 3584) :
    n.state.memory.peek (0x200 + UInt16.ofNat k) = image[k]
  /-- There are zeros from there to the end of memory. -/
  zeros {a : UInt16} (h : 0x200 + min image.size 3584 ≤ a.toNat) (hle : a ≤ 0xFFF) :
    n.state.memory.peek a = 0
  /-- Memory below the program area is as before, -/
  below {a : UInt16} (h : a < 0x200) : n.state.memory.peek a = m.state.memory.peek a
  /-- and so is all else, but for the program counter. -/
  rest : n = { m with state := { m.state with memory := n.state.memory, pc := 0x200 } }

variable {m n p : Machine} {image first second : Array UInt8}

theorem loads_load (m : Machine) (image : Array UInt8) : m.Loads image (m.load image).machine := by
  have peek_eq {a : UInt16} (hle : a ≤ 0xFFF) : (m.load image).machine.state.memory.peek a =
      if a < 0x200 then m.state.memory.peek a else image[a.toNat - 0x200]?.getD 0 :=
    m.state.memory.peek_withProgram image hle
  refine ⟨fun {k} h => ?_, fun {a} h hle => ?_, fun {a} h => ?_, rfl⟩
  · have inside : k < 3584 := by omega
    have address := Memory.toNat_offset inside
    have high : ¬0x200 + UInt16.ofNat k < 0x200 := by
      rw [Memory.lt_start_iff]
      omega
    rw [peek_eq (Memory.offset_le inside), if_neg high, address, Nat.add_sub_cancel_left,
      Array.getElem?_eq_getElem (by omega)]
    rfl
  · have high : ¬a < 0x200 := by
      rw [Memory.lt_start_iff]
      omega
    have top := Memory.le_last_iff.mp hle
    rw [peek_eq hle, if_neg high, Array.getElem?_eq_none (by omega)]
    rfl
  · have low : a ≤ 0xFFF := by
      rw [Memory.lt_start_iff] at h
      rw [Memory.le_last_iff]
      omega
    rw [peek_eq low, if_pos h]

/-- The program area holds the padded image. -/
theorem Loads.peek_program (h : m.Loads image n) {k : ℕ} (hk : k < 3584) :
    n.state.memory.peek (0x200 + UInt16.ofNat k) = (Memory.padded image)[k] := by
  rw [Memory.getElem_padded image hk]
  by_cases taken : k < image.size
  · rw [h.program (by omega), Array.getElem?_eq_getElem taken]
    rfl
  · have behind : 0x200 + min image.size 3584 ≤ (0x200 + UInt16.ofNat k).toNat := by
      rw [Memory.toNat_offset hk]
      omega
    rw [h.zeros behind (Memory.offset_le hk), Array.getElem?_eq_none (by omega)]
    rfl

/-- How a machine is after a load is settled, and depends on no more of the image than fits. -/
theorem Loads.eq_of_padded (h : m.Loads first n) (h' : m.Loads second p)
    (same : Memory.padded first = Memory.padded second) : n = p := by
  have memory_eq : n.state.memory = p.state.memory := by
    apply Memory.ext_peek_of_le
    intro a hle
    by_cases low : a < 0x200
    · rw [h.below low, h'.below low]
    · obtain ⟨k, hk, rfl⟩ := Memory.exists_offset low hle
      rw [h.peek_program hk, h'.peek_program hk]
      simp only [same]
  rw [h.rest, h'.rest, memory_eq]

theorem Loads.padded_eq (h : m.Loads first n) (h' : m.Loads second n) :
    Memory.padded first = Memory.padded second := by
  apply Vector.ext
  intro k hk
  rw [← h.peek_program hk, h'.peek_program hk]

/-- A second load covers the first one. -/
theorem Loads.again (h : m.Loads first n) (h' : n.Loads second p) : m.Loads second p where
  program := h'.program
  zeros := h'.zeros
  below low := (h'.below low).trans (h.below low)
  rest := by
    refine h'.rest.trans ?_
    rw [h.rest]

/-- Of programs loaded one after the other, only the last one is left. -/
theorem loads_run {ops : List (HeldKeys × Op)} (h : ∀ entry ∈ ops, ∃ image, entry.2 = .load image)
    (m : Machine) (held : HeldKeys) (image : Array UInt8) :
    m.Loads image (m.run (ops ++ [(held, .load image)])) := by
  induction ops generalizing m with
  | nil => exact m.loads_load image
  | cons entry rest ih =>
    obtain ⟨keys, op⟩ := entry
    obtain ⟨⟨earlier, rfl⟩, hrest⟩ := List.forall_mem_cons.mp h
    exact (m.loads_load earlier).again (ih hrest _)

/-- **Main theorem.** To load an image is to put as much of it as fits into the program area, with
    zeros behind it, and to set the program counter to its start; memory below and all else stays
    as it is. The result tells whether the image was taken as a whole, and if not, how much of it.
    So after any number of loads the machine is as if only the last had been made, and two images
    make the same machine just if they fill the program area alike. -/
theorem load_leaves_no_residue (m : Machine) (image : Array UInt8) :
    m.Loads image (m.load image).machine ∧
      ((m.load image).result = .ok (.complete image.size) ↔ image.size ≤ 3584) ∧
      (3584 < image.size → (m.load image).result = .ok (.truncated 3584 image.size)) ∧
      (∀ (ops : List (HeldKeys × Op)) (held : HeldKeys),
        (∀ entry ∈ ops, ∃ earlier, entry.2 = .load earlier) →
          m.run (ops ++ [(held, .load image)]) = (m.load image).machine) ∧
      ∀ other, (m.load other).machine = (m.load image).machine ↔
        Memory.padded other = Memory.padded image := by
  have loaded := m.loads_load image
  have result_eq : (m.load image).result = .ok
      (if image.size ≤ 3584 then .complete image.size else .truncated 3584 image.size) := rfl
  rw [result_eq]
  refine ⟨loaded, ?_, fun large => ?_, fun ops held h => ?_, fun other => ⟨fun same => ?_, ?_⟩⟩
  · constructor
    · intro complete
      by_contra large
      rw [if_neg large] at complete
      cases complete
    · intro fits
      rw [if_pos fits]
  · rw [if_neg (by omega)]
  · exact (loads_run h m held image).eq_of_padded loaded rfl
  · exact (same ▸ m.loads_load other).padded_eq loaded
  · exact (m.loads_load other).eq_of_padded loaded

/-- A long program, then a shorter one, whose own last byte is a zero. The long one is gone. -/
theorem load_leaves_no_residue_of_shorter :
    let m := new (.ofBytes #[])
    let n := m.run [(.allUp, .load #[0x60, 0x05, 0x12, 0x00]), (.allUp, .load #[0x00, 0xE0, 0x00])]
    n.state.memory.peek 0x201 = 0xE0 ∧ n.state.memory.peek 0x203 = 0 ∧
      (m.load #[0x00, 0xE0, 0x00]).result = .ok (.complete 3) ∧
      n = (m.load #[0x00, 0xE0]).machine := by
  intro m n
  obtain ⟨loaded, complete_iff, -, last, alike⟩ := load_leaves_no_residue m #[0x00, 0xE0, 0x00]
  have n_eq : n = (m.load #[0x00, 0xE0, 0x00]).machine := by
    refine last [(.allUp, .load #[0x60, 0x05, 0x12, 0x00])] .allUp fun entry hentry => ?_
    obtain rfl := List.mem_singleton.mp hentry
    exact ⟨_, rfl⟩
  have same : Memory.padded #[0x00, 0xE0] = Memory.padded #[0x00, 0xE0, 0x00] := by
    apply Vector.ext
    intro k hk
    rw [Memory.getElem_padded _ hk, Memory.getElem_padded _ hk]
    match k with
    | 0 | 1 | 2 => rfl
    | k + 3 => rfl
  rw [n_eq]
  exact ⟨loaded.program (k := 1) (by decide), loaded.zeros (by decide) (by decide),
    complete_iff.mpr (by decide), ((alike _).mpr same).symm⟩

end Machine

/-! ## Readers -/

namespace ReadOutcome

/-- Whether more may come after this outcome: it brought bytes, or was an interruption. -/
def GoesOn : ReadOutcome → Prop
  | chunk bytes => bytes ≠ #[]
  | interrupted => True
  | failed _ => False

/-- The bytes that an outcome brings. -/
def bytes : ReadOutcome → Array UInt8
  | chunk bytes => bytes
  | interrupted | failed _ => #[]

end ReadOutcome

/-- The bytes of several outcomes, one behind the other. -/
def joined : List ReadOutcome → Array UInt8
  | [] => #[]
  | outcome :: rest => outcome.bytes ++ joined rest

/-- How a reader ends: at the end of its data, or with a failure. What would come later is never
    asked for. -/
inductive Ends : List ReadOutcome → Option String → Prop where
  | nothing : Ends [] none
  | empty (rest : List ReadOutcome) : Ends (.chunk #[] :: rest) none
  | failed (reason : String) (rest : List ReadOutcome) : Ends (.failed reason :: rest) (some reason)

variable {pieces ending : List ReadOutcome} {failure : Option String}

/-- Every reader brings pieces, and then ends in one of the ways. -/
theorem exists_pieces (outcomes : List ReadOutcome) : ∃ pieces ending failure,
    outcomes = pieces ++ ending ∧ (∀ piece ∈ pieces, piece.GoesOn) ∧ Ends ending failure := by
  induction outcomes with
  | nil => exact ⟨[], [], none, rfl, List.forall_mem_nil _, .nothing⟩
  | cons outcome rest ih =>
    obtain ⟨pieces, ending, failure, rfl, hpieces, hends⟩ := ih
    have longer (h : outcome.GoesOn) : ∀ piece ∈ outcome :: pieces, piece.GoesOn :=
      List.forall_mem_cons.mpr ⟨h, hpieces⟩
    cases outcome with
    | chunk bytes =>
      by_cases empty : bytes = #[]
      · subst empty
        exact ⟨[], _, none, rfl, List.forall_mem_nil _, .empty _⟩
      · exact ⟨.chunk bytes :: pieces, ending, failure, rfl, longer empty, hends⟩
    | interrupted => exact ⟨.interrupted :: pieces, ending, failure, rfl, longer trivial, hends⟩
    | failed reason => exact ⟨[], _, some reason, rfl, List.forall_mem_nil _, .failed _ _⟩

/-- The pieces of a reader add up, however its bytes are divided, and with any interruptions. -/
theorem readFrom_append (h : ∀ piece ∈ pieces, piece.GoesOn) (read : Array UInt8)
    (ending : List ReadOutcome) :
    readFrom read (pieces ++ ending) = readFrom (read ++ joined pieces) ending := by
  induction pieces generalizing read with
  | nil => rw [List.nil_append, joined, Array.append_empty]
  | cons piece rest ih =>
    obtain ⟨hpiece, hrest⟩ := List.forall_mem_cons.mp h
    rw [joined, ← Array.append_assoc, ← ih hrest]
    cases piece with
    | chunk bytes =>
      have filled : bytes.isEmpty = false := by
        rw [Bool.eq_false_iff, Ne, Array.isEmpty_iff]
        exact hpiece
      rw [List.cons_append, readFrom, filled]
      rfl
    | interrupted =>
      rw [List.cons_append, readFrom]
      simp only [ReadOutcome.bytes, Array.append_empty]
    | failed reason => exact hpiece.elim

/-- At the end of its data, a reader gives all that was read; when it fails, it gives nothing. -/
theorem Ends.readFrom_eq (h : Ends ending failure) (read : Array UInt8) :
    readFrom read ending = match failure with
      | none => .ok read
      | some reason => .error (.unreadable reason) := by
  cases h with
  | _ => rfl

theorem readToEnd_append (h : ∀ piece ∈ pieces, piece.GoesOn) (hends : Ends ending failure) :
    readToEnd (pieces ++ ending) = match failure with
      | none => .ok (joined pieces)
      | some reason => .error (.unreadable reason) := by
  unfold readToEnd
  rw [readFrom_append h, Array.empty_append]
  exact hends.readFrom_eq (joined pieces)

namespace Machine

/-- **Main theorem.** A reader brings pieces, and then comes to the end of its data or fails. If it
    comes to the end, loading from it is loading the bytes of its pieces: the result, the machine
    and the report are the same, however the bytes were divided and wherever there were
    interruptions. If it fails, the result says why, and the machine is as it was, however much had
    been read. -/
theorem read_eq_load :
    (∀ outcomes, ∃ pieces ending failure, outcomes = pieces ++ ending ∧
      (∀ piece ∈ pieces, piece.GoesOn) ∧ Ends ending failure) ∧
    (∀ (m : Machine) (pieces ending : List ReadOutcome), (∀ piece ∈ pieces, piece.GoesOn) →
      Ends ending none → m.read (pieces ++ ending) = m.load (joined pieces)) ∧
    (∀ (m : Machine) (pieces ending pieces' ending' : List ReadOutcome),
      (∀ piece ∈ pieces, piece.GoesOn) → (∀ piece ∈ pieces', piece.GoesOn) →
      Ends ending none → Ends ending' none → joined pieces = joined pieces' →
        m.read (pieces ++ ending) = m.read (pieces' ++ ending')) ∧
    ∀ (m : Machine) (pieces ending : List ReadOutcome) (reason : String),
      (∀ piece ∈ pieces, piece.GoesOn) → Ends ending (some reason) →
        m.read (pieces ++ ending) = ⟨.error (.unreadable reason), m, []⟩ := by
  have complete (m : Machine) (pieces ending : List ReadOutcome)
      (h : ∀ piece ∈ pieces, piece.GoesOn) (hends : Ends ending none) :
      m.read (pieces ++ ending) = m.load (joined pieces) := by
    unfold read
    rw [readToEnd_append h hends]
  refine ⟨exists_pieces, complete, ?_, ?_⟩
  · intro m pieces ending pieces' ending' h h' hends hends' same
    rw [complete m pieces ending h hends, complete m pieces' ending' h' hends', same]
  · intro m pieces ending reason h hends
    unfold read
    rw [readToEnd_append h hends]

/-- Three bytes in two chunks with an interruption between them, and the same three bytes at once,
    load the same program. If the second chunk is followed by a failure, nothing is loaded. -/
theorem read_eq_load_of_interrupted :
    let m := new (.ofBytes #[])
    let pieces : List ReadOutcome := [.chunk #[0x00], .interrupted, .chunk #[0xE0, 0x12]]
    (∀ piece ∈ pieces, piece.GoesOn) ∧ joined pieces = #[0x00, 0xE0, 0x12] ∧
      m.read (pieces ++ [.chunk #[], .failed "late"]) = m.load #[0x00, 0xE0, 0x12] ∧
      m.read (pieces ++ [.chunk #[], .failed "late"]) = m.read [.chunk #[0x00, 0xE0, 0x12]] ∧
      m.read (pieces ++ [.failed "gone"]) = ⟨.error (.unreadable "gone"), m, []⟩ := by
  intro m pieces
  have goesOn : ∀ piece ∈ pieces, piece.GoesOn := by
    simp [pieces, ReadOutcome.GoesOn]
  have whole : ∀ piece ∈ [ReadOutcome.chunk #[0x00, 0xE0, 0x12]], piece.GoesOn := by
    simp [ReadOutcome.GoesOn]
  obtain ⟨-, loads, alike, fails⟩ := read_eq_load
  exact ⟨goesOn, by decide, loads m pieces _ goesOn (.empty _),
    alike m pieces _ [.chunk #[0x00, 0xE0, 0x12]] [] goesOn whole (.empty _) .nothing (by decide),
    fails m pieces _ "gone" goesOn (.failed _ _)⟩

end Machine

end Chip8
