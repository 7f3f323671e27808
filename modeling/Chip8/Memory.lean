import Chip8.Instruction.Basic

/-!
# Memory

Four kilobytes of bytes. Addresses are sixteen bits wide and count round the end of memory, so
every address names a cell.

* `Memory.peek`, `Memory.poke`: one cell.
* `Memory.store`, `Memory.load`: a run of cells, which may go round the end.
* `Memory.word`: two cells as an instruction word, the first the more significant.
* `Memory.initial`: the glyphs of the sixteen digits at the bottom, zeros above.
* `Memory.withProgram`: a program image in the program area, zeros behind it.
-/

namespace Chip8

/-- The contents of memory. -/
structure Memory where
  cells : Vector UInt8 4096
  deriving DecidableEq

namespace Memory

/-- Cells of memory. -/
def size : Nat := 4096

/-- The greatest address that is no other cell's. -/
def addressMask : UInt16 := 0xFFF

/-- Where programs are loaded and begin. -/
def programStart : UInt16 := 0x200

/-- Bytes of the longest program. -/
def programCapacity : Nat := 3584

/-- Rows of a glyph, one byte each. -/
def glyphSize : Nat := 5

/-- The glyphs of the digits `0` to `F`. -/
def glyphs : Vector UInt8 80 := #v[
  0xF0, 0x90, 0x90, 0x90, 0xF0,
  0x20, 0x60, 0x20, 0x20, 0x70,
  0xF0, 0x10, 0xF0, 0x80, 0xF0,
  0xF0, 0x10, 0xF0, 0x10, 0xF0,
  0x90, 0x90, 0xF0, 0x10, 0x10,
  0xF0, 0x80, 0xF0, 0x10, 0xF0,
  0xF0, 0x80, 0xF0, 0x90, 0xF0,
  0xF0, 0x10, 0x20, 0x40, 0x40,
  0xF0, 0x90, 0xF0, 0x90, 0xF0,
  0xF0, 0x90, 0xF0, 0x10, 0xF0,
  0xF0, 0x90, 0xF0, 0x90, 0x90,
  0xE0, 0x90, 0xE0, 0x90, 0xE0,
  0xF0, 0x80, 0x80, 0x80, 0xF0,
  0xE0, 0x90, 0x90, 0x90, 0xE0,
  0xF0, 0x80, 0xF0, 0x80, 0xF0,
  0xF0, 0x80, 0xF0, 0x80, 0x80]

/-- Memory before any program is loaded. -/
def initial : Memory := ⟨Vector.ofFn fun k => glyphs[k.val]?.getD 0⟩

/-- The cell that an address names. -/
def cell (a : UInt16) : Fin 4096 := Fin.ofNat 4096 a.toNat

/-- The byte at an address. -/
def peek (m : Memory) (a : UInt16) : UInt8 := m.cells[cell a]

/-- Memory with the byte at an address replaced. -/
def poke (m : Memory) (a : UInt16) (b : UInt8) : Memory := ⟨m.cells.set (cell a) b⟩

/-- The `count` bytes from an address on. -/
def load (m : Memory) (a : UInt16) : Nat → List UInt8
  | 0 => []
  | count + 1 => m.peek a :: m.load (a + 1) count

/-- Memory with the given bytes written from an address on, the first one first. -/
def store (m : Memory) (a : UInt16) : List UInt8 → Memory
  | [] => m
  | b :: rest => (m.poke a b).store (a + 1) rest

/-- The instruction word at an address. -/
def word (m : Memory) (a : UInt16) : Word :=
  UInt16.ofNat (256 * (m.peek a).toNat + (m.peek (a + 1)).toNat)

/-- Memory with the program area holding `image`, as much of it as fits, and zeros behind. -/
def withProgram (m : Memory) (image : Array UInt8) : Memory :=
  ⟨Vector.ofFn fun k =>
    if k.val < programStart.toNat then m.cells[k.val]
    else image[k.val - programStart.toNat]?.getD 0⟩

/-! ## The view of each operation -/

theorem peek_poke (m : Memory) (a b : UInt16) (value : UInt8) :
    (m.poke a value).peek b = if cell a = cell b then value else m.peek b := by
  simp [peek, poke, Vector.getElem_set, Fin.val_inj]

@[simp] theorem peek_poke_self (m : Memory) (a : UInt16) (value : UInt8) :
    (m.poke a value).peek a = value := by
  simp [peek_poke]

/-- The last twelve bits of an address name the same cell. -/
theorem toNat_masked (a : UInt16) : (a &&& 0xFFF).toNat = (cell a).val := by
  rw [UInt16.toNat_and]
  exact Nat.and_two_pow_sub_one_eq_mod a.toNat 12

theorem word_of_peek {m : Memory} {a : UInt16} {left right : UInt8} (hleft : m.peek a = left)
    (hright : m.peek (a + 1) = right) :
    m.word a = UInt16.ofNat (256 * left.toNat + right.toNat) := by
  unfold word
  rw [hleft, hright]

theorem length_load (m : Memory) (a : UInt16) (count : Nat) : (m.load a count).length = count := by
  induction count generalizing a with
  | zero => rfl
  | succ count ih => simp [load, ih]

/-- The cell so many places behind an address, counting round the end of memory. -/
def cellFrom (a : UInt16) (k : Nat) : Fin 4096 :=
  ⟨(a.toNat + k) % 4096, Nat.mod_lt _ (by decide)⟩

theorem cellFrom_eq_iff {a b : UInt16} {k l : Nat} :
    cellFrom a k = cellFrom b l ↔ (a.toNat + k) % 4096 = (b.toNat + l) % 4096 :=
  Fin.ext_iff

/-- Counting on from the next address is counting on from the address itself. -/
theorem cellFrom_succ (a : UInt16) (k : Nat) : cellFrom (a + 1) k = cellFrom a (k + 1) := by
  rw [cellFrom_eq_iff, UInt16.toNat_add, UInt16.toNat_one]
  omega

/-- The wrap of addresses at sixteen bits is no wrap of memory's own. -/
theorem cell_add (a : UInt16) (k : Nat) : cell (a + UInt16.ofNat k) = cellFrom a k := by
  apply Fin.ext
  show (a + UInt16.ofNat k).toNat % 4096 = (a.toNat + k) % 4096
  rw [UInt16.toNat_add, UInt16.toNat_ofNat']
  omega

theorem peek_add (m : Memory) (a : UInt16) (k : Nat) :
    m.peek (a + UInt16.ofNat k) = m.cells.get (cellFrom a k) :=
  congrArg m.cells.get (cell_add a k)

/-- The bytes of a run come from the addresses one after the other. -/
theorem getElem?_load (m : Memory) (a : UInt16) {count k : Nat} (h : k < count) :
    (m.load a count)[k]? = some (m.peek (a + UInt16.ofNat k)) := by
  induction count generalizing a k with
  | zero => omega
  | succ count ih =>
    cases k with
    | zero =>
      show some (m.peek a) = some (m.peek (a + 0))
      rw [UInt16.add_zero]
    | succ k =>
      have next : a + 1 + UInt16.ofNat k = a + UInt16.ofNat (k + 1) := by
        rw [UInt16.ofNat_add, UInt16.add_assoc, UInt16.add_comm 1]
        rfl
      show (m.load (a + 1) count)[k]? = _
      rw [ih (a + 1) (by omega), next]

theorem get_poke (m : Memory) (a : UInt16) (b : UInt8) (c : Fin 4096) :
    (m.poke a b).cells.get c = if cell a = c then b else m.cells.get c := by
  change (m.cells.set (cell a) b)[c.val] = if cell a = c then b else m.cells[c.val]
  simp only [Vector.getElem_set, Fin.val_inj]

/-- Bytes that are stored leave all other cells alone. -/
theorem get_store_of_ne {m : Memory} {a : UInt16} {bytes : List UInt8} {c : Fin 4096}
    (h : ∀ k < bytes.length, c ≠ cellFrom a k) :
    (m.store a bytes).cells.get c = m.cells.get c := by
  induction bytes generalizing m a with
  | nil => rfl
  | cons b rest ih =>
    have elsewhere : cell a ≠ c := (h 0 (Nat.zero_lt_succ _)).symm
    have later : ∀ k < rest.length, c ≠ cellFrom (a + 1) k := by
      intro k hk
      rw [cellFrom_succ]
      exact h (k + 1) (Nat.succ_lt_succ hk)
    rw [store, ih later, get_poke, if_neg elsewhere]

/-- Bytes that are stored come to lie one behind the other, if they are not more than go round. -/
theorem get_store {m : Memory} {a : UInt16} {bytes : List UInt8} (hlength : bytes.length ≤ 4096)
    {k : Nat} (hk : k < bytes.length) :
    (m.store a bytes).cells.get (cellFrom a k) = bytes[k] := by
  induction bytes generalizing m a k with
  | nil => cases hk
  | cons b rest ih =>
    rw [List.length_cons] at hlength hk
    cases k with
    | zero =>
      have untouched : ∀ j < rest.length, cellFrom a 0 ≠ cellFrom (a + 1) j := by
        intro j hj
        rw [cellFrom_succ, Ne, cellFrom_eq_iff]
        omega
      rw [store, get_store_of_ne untouched, get_poke]
      exact if_pos rfl
    | succ k =>
      rw [store, ← cellFrom_succ]
      exact ih (by omega) (by omega)

/-- Two memories that hold the same byte in every cell are the same. -/
theorem ext_get {m n : Memory} (h : ∀ a, m.cells.get a = n.cells.get a) : m = n :=
  congrArg Memory.mk (Vector.ext fun k hk => h ⟨k, hk⟩)

/-- Two memories that hold the same byte at every address are the same. -/
theorem ext_peek {m n : Memory} (h : ∀ a, m.peek a = n.peek a) : m = n := by
  apply ext_get
  intro a
  have name : cell (UInt16.ofNat a.val) = a := by
    apply Fin.ext
    show (UInt16.ofNat a.val).toNat % 4096 = a.val
    rw [UInt16.toNat_ofNat']
    omega
  rw [← name]
  exact h (UInt16.ofNat a.val)

end Memory

end Chip8
