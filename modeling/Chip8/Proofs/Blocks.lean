import Chip8.Proofs.Sequences

/-!
# Register blocks

Two instructions pass the registers V0 to Vx to memory and back, one cell for each, from the index
register on and round the end of memory if need be. No block is so long that it meets itself or the
block behind it, so what was stored can be loaded again, and what was loaded can be stored again.

* `State.BlockStored`, `State.BlockLoaded`: a block passed to memory, and a block passed back.
* `BlockStored.loaded`, `BlockLoaded.stored`: each undoes the other.
* `BlockStored.apart`: the next block lies behind this one.
* `blocks_restored`: the main theorem.
-/

namespace Chip8

open Memory (cellFrom cellFrom_eq_iff)

namespace State

variable {s t u w : State} {x y : Register}

/-! ## Blocks -/

/-- What it means that V0 to Vx are passed to memory, and nothing else is done but to move the index
    register on behind them. -/
structure BlockStored (s : State) (x : Register) (t : State) : Prop where
  /-- Each register has a cell of its own, -/
  distinct {k l : Register} (h : cellFrom s.i k = cellFrom s.i l) : k = l
  /-- which then holds it. -/
  block {k : Register} (hk : k ≤ x) : t.memory.cells.get (cellFrom s.i k) = s.v.get k
  /-- The other cells are as before. -/
  beyond {a : Fin 4096} (ha : ∀ k ≤ x, a ≠ cellFrom s.i k) :
    t.memory.cells.get a = s.memory.cells.get a
  index : t.i.toNat = (s.i.toNat + x.val + 1) % 0x1000
  rest : t = { s with memory := t.memory, i := t.i }

/-- What it means that V0 to Vx are passed back from memory, and nothing else is done but to move
    the index register on. -/
structure BlockLoaded (s : State) (x : Register) (t : State) : Prop where
  block {k : Register} (hk : k ≤ x) : t.v.get k = s.memory.cells.get (cellFrom s.i k)
  beyond {k : Register} (hk : x < k) : t.v.get k = s.v.get k
  index : t.i.toNat = (s.i.toNat + x.val + 1) % 0x1000
  rest : t = { s with v := t.v, i := t.i }

theorem toNat_advanceIndex (s : State) (count : UInt16) :
    (s.advanceIndex count).i.toNat = (s.i.toNat + count.toNat) % 0x1000 := by
  show ((s.i + count) &&& 0xFFF).toNat = _
  rw [Memory.toNat_masked]
  show (s.i + count).toNat % 4096 = _
  rw [UInt16.toNat_add]
  omega

theorem toNat_index_behind (s : State) (x : Register) :
    (s.advanceIndex (UInt16.ofNat (x.val + 1))).i.toNat = (s.i.toNat + x.val + 1) % 0x1000 := by
  rw [toNat_advanceIndex, UInt16.toNat_ofNat']
  omega

theorem blockStored_storeRegisters (s : State) (x : Register) :
    s.BlockStored x (s.storeRegisters x) where
  distinct {k l} h := by
    rw [cellFrom_eq_iff] at h
    apply Fin.ext
    omega
  block {k} hk := by
    have length : (s.v.toList.take (x.val + 1)).length = x.val + 1 := by
      rw [List.length_take, Vector.length_toList]
      omega
    have inside : k.val < (s.v.toList.take (x.val + 1)).length := by
      rw [length]
      exact Nat.lt_succ_of_le hk
    refine (Memory.get_store (by omega) inside).trans ?_
    rw [List.getElem_take, Vector.getElem_toList]
    rfl
  beyond {a} ha := by
    refine Memory.get_store_of_ne fun k hk => ?_
    rw [List.length_take, Vector.length_toList] at hk
    exact ha ⟨k, by omega⟩ (show k ≤ x.val by omega)
  index := toNat_index_behind _ x
  rest := rfl

theorem blockLoaded_loadRegisters (s : State) (x : Register) :
    s.BlockLoaded x (s.loadRegisters x) where
  block {k} hk := by
    refine (Vector.getElem_ofFn k.isLt).trans ?_
    rw [if_pos hk, Memory.peek_add]
  beyond {k} hk := by
    refine (Vector.getElem_ofFn k.isLt).trans ?_
    rw [if_neg (Fin.not_le.mpr hk)]
  index := toNat_index_behind _ x
  rest := rfl

theorem BlockLoaded.memory (h : s.BlockLoaded x t) : t.memory = s.memory := by
  rw [h.rest]

theorem BlockLoaded.isWaiting (h : s.BlockLoaded x t) : t.isWaiting = s.isWaiting := by
  rw [h.rest]
  rfl

/-! ## There and back -/

/-- What was stored is loaded again, whatever the registers were in between. -/
theorem BlockStored.loaded (h : s.BlockStored x t) (h' : u.BlockLoaded x w) (hi : u.i = s.i)
    (hmemory : ∀ k ≤ x, u.memory.cells.get (cellFrom s.i k) = t.memory.cells.get (cellFrom s.i k))
    {k : Register} (hk : k ≤ x) : w.v.get k = s.v.get k := by
  rw [h'.block hk, hi, hmemory k hk, h.block hk]

/-- What was loaded is stored again, and so memory does not change. -/
theorem BlockLoaded.stored (h : s.BlockLoaded x t) (h' : u.BlockStored x w) (hi : u.i = s.i)
    (hv : u.v = t.v) (hmemory : u.memory = s.memory) : w.memory = s.memory := by
  apply Memory.ext_get
  intro a
  by_cases ha : ∃ k ≤ x, a = cellFrom u.i k
  · obtain ⟨k, hk, rfl⟩ := ha
    rw [h'.block hk, hv, h.block hk, hi]
  · rw [h'.beyond fun k hk same => ha ⟨k, hk, same⟩, hmemory]

/-! ## One block behind the other -/

/-- Behind a block, the cells go on where it ends. -/
theorem BlockStored.cellFrom_behind (h : s.BlockStored x t) (hi : u.i = t.i) (l : ℕ) :
    cellFrom u.i l = cellFrom s.i (x.val + 1 + l) := by
  have index := h.index
  rw [cellFrom_eq_iff, hi]
  omega

/-- The next block has no cell in common with this one. -/
theorem BlockStored.apart (h : s.BlockStored x t) (hi : u.i = t.i) {k l : Register} (hk : k ≤ x) :
    cellFrom s.i k ≠ cellFrom u.i l := by
  have hkx : k.val ≤ x.val := hk
  rw [h.cellFrom_behind hi, Ne, cellFrom_eq_iff]
  omega

end State

/-! ## Words -/

namespace Machine

variable {m : Machine} {x : Register}

theorem leadsTo_storeRegisters (hwait : m.state.isWaiting = false) (x : Register) :
    m.LeadsTo [.storeRegisters x] { m with state := m.state.storeRegisters x } :=
  leadsTo_of_next hwait ⟨trivial, nofun, nofun⟩ (fun _ => rfl) rfl

theorem leadsTo_loadRegisters (hwait : m.state.isWaiting = false) (x : Register) :
    m.LeadsTo [.loadRegisters x] { m with state := m.state.loadRegisters x } :=
  leadsTo_of_next hwait ⟨trivial, nofun, nofun⟩ (fun _ => rfl) rfl

/-- The index register can be set to every address of memory. -/
theorem leadsTo_loadIndex {addr : UInt16} (hwait : m.state.isWaiting = false)
    (haddr : addr ≤ 0xFFF) :
    m.LeadsTo [.loadIndex addr] { m with state := { m.state with i := addr } } := by
  have fits : addr < 0x1000 := by
    rw [UInt16.le_iff_toNat_le] at haddr
    rw [UInt16.lt_iff_toNat_lt]
    exact Nat.lt_succ_of_le haddr
  exact leadsTo_of_next hwait ⟨fits, nofun, nofun⟩ (fun _ => rfl) rfl

/-- The index register set back, and a block loaded. -/
theorem leadsTo_back {addr : UInt16} (hwait : m.state.isWaiting = false) (haddr : addr ≤ 0xFFF)
    (x : Register) : m.LeadsTo [.loadIndex addr, .loadRegisters x]
      { m with state := { m.state with i := addr }.loadRegisters x } :=
  have set := leadsTo_loadIndex hwait haddr
  set.append (leadsTo_loadRegisters (m := { m with state := { m.state with i := addr } }) hwait x)

/-- A block loaded, the index register set back, and the block stored again. -/
theorem leadsTo_again {addr : UInt16} (hwait : m.state.isWaiting = false) (haddr : addr ≤ 0xFFF)
    (x : Register) : m.LeadsTo [.loadRegisters x, .loadIndex addr, .storeRegisters x]
      { m with state := { m.state.loadRegisters x with i := addr }.storeRegisters x } := by
  let loaded : Machine := { m with state := m.state.loadRegisters x }
  let back : Machine := { m with state := { m.state.loadRegisters x with i := addr } }
  have free : loaded.state.isWaiting = false :=
    (m.state.blockLoaded_loadRegisters x).isWaiting.trans hwait
  have set : loaded.LeadsTo [.loadIndex addr] back := leadsTo_loadIndex free haddr
  have stored := leadsTo_storeRegisters (m := back) free x
  exact (leadsTo_loadRegisters hwait x).append (set.append stored)

/-- What becomes of a machine that goes on and stores nothing: memory is the same, and no key is
    waited for. -/
structure Resumes (n p : Machine) : Prop where
  free : p.state.isWaiting = false
  memory : p.state.memory = n.state.memory

/-- A block that still lies where it was stored is loaded again, and the index register is behind it
    then, as it was when it had been stored. -/
theorem exists_restored {s t : State} (stored : s.BlockStored x t) (hi : s.i ≤ 0xFFF)
    (hwait : m.state.isWaiting = false)
    (hcells : ∀ k ≤ x,
      m.state.memory.cells.get (cellFrom s.i k) = t.memory.cells.get (cellFrom s.i k)) :
    ∃ n, m.LeadsTo [.loadIndex s.i, .loadRegisters x] n ∧ m.Resumes n ∧
      (∀ k ≤ x, n.state.v.get k = s.v.get k) ∧ (∀ k, x < k → n.state.v.get k = m.state.v.get k) ∧
      n.state.i = t.i := by
  have loaded := { m.state with i := s.i }.blockLoaded_loadRegisters x
  refine ⟨_, leadsTo_back hwait hi x, ⟨loaded.isWaiting.trans hwait, loaded.memory⟩,
    fun k hk => stored.loaded loaded rfl hcells hk, fun k hk => loaded.beyond hk, ?_⟩
  exact UInt16.toNat_inj.mp (loaded.index.trans stored.index.symm)

/-- **Main theorem.** To store V0 to Vx is to pass them to as many cells behind the index register,
    and to move it on. Whatever is done to the registers then, if the index register is set back,
    they are loaded again, and no other register and no cell changes. The other way round, to load a
    block and to store it again changes no cell. A second block that is stored behind the first has
    no cell in common with it, and is loaded again behind the first. -/
theorem blocks_restored (m : Machine) (hwait : m.state.isWaiting = false) (hi : m.state.i ≤ 0xFFF)
    (x : Register) :
    (∃ n, m.LeadsTo [.storeRegisters x] n ∧ n = { m with state := n.state } ∧
      m.state.BlockStored x n.state ∧
      (∀ p, n.Resumes p →
        ∃ q, p.LeadsTo [.loadIndex m.state.i, .loadRegisters x] q ∧
          (∀ k ≤ x, q.state.v.get k = m.state.v.get k) ∧
          (∀ k, x < k → q.state.v.get k = p.state.v.get k) ∧ q.state.memory = n.state.memory) ∧
      ∀ p, n.Resumes p → p.state.i = n.state.i → ∀ y : Register,
        (∀ l, cellFrom p.state.i l = cellFrom m.state.i (x.val + 1 + l)) ∧
        (∀ k ≤ x, ∀ l ≤ y, cellFrom m.state.i k ≠ cellFrom p.state.i l) ∧
        ∃ q, p.LeadsTo [.storeRegisters y] q ∧ p.state.BlockStored y q.state ∧
          ∀ r, q.Resumes r →
            ∃ first, r.LeadsTo [.loadIndex m.state.i, .loadRegisters x] first ∧
              first.state.isWaiting = false ∧
              (∀ k ≤ x, first.state.v.get k = m.state.v.get k) ∧
              ∀ between, first.Resumes between → between.state.i = first.state.i →
                ∃ second, between.LeadsTo [.loadRegisters y] second ∧
                  ∀ l ≤ y, second.state.v.get l = p.state.v.get l) ∧
    ∃ n, m.LeadsTo [.loadRegisters x, .loadIndex m.state.i, .storeRegisters x] n ∧
      n.state.memory = m.state.memory := by
  have stored := m.state.blockStored_storeRegisters x
  refine ⟨⟨_, leadsTo_storeRegisters hwait x, rfl, stored, ?_, ?_⟩, ?_⟩
  · intro p hp
    obtain ⟨q, leads, resumes, below, above, -⟩ :=
      exists_restored stored hi hp.free fun k _ => by rw [hp.memory]
    exact ⟨q, leads, below, above, resumes.memory.trans hp.memory⟩
  · intro p hp hindex y
    have stored' := p.state.blockStored_storeRegisters y
    have apart {k l : Register} (hk : k ≤ x) : cellFrom m.state.i k ≠ cellFrom p.state.i l :=
      stored.apart hindex hk
    refine ⟨stored.cellFrom_behind hindex, fun k hk l _ => apart hk, _,
      leadsTo_storeRegisters hp.free y, stored', fun r hr => ?_⟩
    -- The second block did not meet the first.
    obtain ⟨first, leads, resumes, below, -, behind⟩ :=
      exists_restored stored hi hr.free fun k hk => by
        rw [hr.memory, stored'.beyond fun l _ => apart hk, hp.memory]
    refine ⟨first, leads, resumes.free, below, fun between hbetween hindex' => ?_⟩
    have loaded := between.state.blockLoaded_loadRegisters y
    have again : between.state.i = p.state.i := by
      rw [hindex', behind, hindex]
    refine ⟨_, leadsTo_loadRegisters hbetween.free y, fun l hl =>
      stored'.loaded loaded again (fun k _ => ?_) hl⟩
    rw [hbetween.memory, resumes.memory, hr.memory]
  · have loaded := m.state.blockLoaded_loadRegisters x
    have stored' := { m.state.loadRegisters x with i := m.state.i }.blockStored_storeRegisters x
    exact ⟨_, leadsTo_again hwait hi x, loaded.stored stored' rfl rfl loaded.memory⟩

/-- V0 and V1 are stored in the last cell of memory and the first one, and V0 once more in the next.
    They are loaded again into registers that were cleared in between. -/
theorem blocks_restored_of_wrapped :
    let m := (new (.ofBytes #[])).run
      [(.allUp, .execute 0x6007), (.allUp, .execute 0x6109), (.allUp, .execute 0xAFFF)]
    m.state.isWaiting = false ∧ m.state.i ≤ 0xFFF ∧
      ∃ n, m.LeadsTo [.storeRegisters 1] n ∧
        n.state.memory.cells.get 4095 = 7 ∧ n.state.memory.cells.get 0 = 9 ∧ n.state.i.toNat = 1 ∧
        (let cleared : Machine := { n with state := { n.state with v := Vector.replicate 16 0 } }
          ∃ q, cleared.LeadsTo [.loadIndex 0xFFF, .loadRegisters 1] q ∧
            q.state.v.get 0 = 7 ∧ q.state.v.get 1 = 9 ∧ q.state.v.get 2 = 0) ∧
        ∃ q first second, n.LeadsTo [.storeRegisters 0] q ∧
          q.LeadsTo [.loadIndex 0xFFF, .loadRegisters 1] first ∧
          first.state.v.get 0 = 7 ∧ first.state.v.get 1 = 9 ∧
          first.LeadsTo [.loadRegisters 0] second ∧ second.state.v.get 0 = 7 := by
  intro m
  have hwait : m.state.isWaiting = false := rfl
  have hi : m.state.i ≤ 0xFFF := by decide
  have cell0 : cellFrom m.state.i (0 : Register) = 4095 := by decide
  have cell1 : cellFrom m.state.i (1 : Register) = 0 := by decide
  have v0 : m.state.v.get 0 = 7 := rfl
  have v1 : m.state.v.get 1 = 9 := rfl
  obtain ⟨⟨n, leads, -, stored, back, behind⟩, -⟩ := blocks_restored m hwait hi 1
  have free : n.state.isWaiting = false := by rw [stored.rest]; exact hwait
  have resumes : n.Resumes n := ⟨free, rfl⟩
  let cleared : Machine := { n with state := { n.state with v := Vector.replicate 16 0 } }
  obtain ⟨q, set_back, loaded, beyond, -⟩ := back cleared ⟨free, rfl⟩
  obtain ⟨-, -, q', leads', stored', both⟩ := behind n resumes rfl 0
  have free' : q'.state.isWaiting = false := by rw [stored'.rest]; exact free
  obtain ⟨first, leads_first, free_first, first_eq, next⟩ := both q' ⟨free', rfl⟩
  obtain ⟨second, leads_second, second_eq⟩ := next first ⟨free_first, rfl⟩ rfl
  have same : n.state.v = m.state.v := by rw [stored.rest]
  refine ⟨hwait, hi, n, leads, ?_, ?_, ?_, ⟨q, set_back, ?_, ?_, ?_⟩, q', first, second, leads',
    leads_first, ?_, ?_, leads_second, ?_⟩
  · rw [← cell0, stored.block (by decide), v0]
  · rw [← cell1, stored.block (by decide), v1]
  · rw [stored.index]
    decide
  · exact (loaded 0 (by decide)).trans v0
  · exact (loaded 1 (by decide)).trans v1
  · exact beyond 2 (by decide)
  · exact (first_eq 0 (by decide)).trans v0
  · exact (first_eq 1 (by decide)).trans v1
  · rw [second_eq 0 (by decide), same, v0]

end Machine

end Chip8
