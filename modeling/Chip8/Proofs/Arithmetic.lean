import Chip8.Proofs.Footprints
import Chip8.Proofs.Sequences

/-!
# Results and flags

Five instructions write two registers, first a result to Vx and then a flag to VF, which may be Vx
itself or an operand. The operands are read before either is written, so that the flag is always
about the old values; where Vx is VF the result is lost. Together, flag and result tell what the
numbers gave before they were cut to a byte.

* `State.value`: what is in a register, as a number.
* `Machine.Flagged`: a result and a flag, and the law they obey.
* `flagged_setFlag`: how the two come into their registers.
* `results_and_flags`: the main theorem.
-/

namespace Chip8

/-! ## Bytes as numbers -/

theorem State.toNat_flagOf (b : Bool) : (State.flagOf b).toNat = b.toNat := by
  cases b <;> rfl

/-- A sum that is cut to a byte, and its carry. -/
theorem carry_add_toNat (a b : UInt8) :
    256 * (decide (255 < a.toNat + b.toNat)).toNat + (a + b).toNat = a.toNat + b.toNat := by
  have ha := a.toNat_lt
  have hb := b.toNat_lt
  rw [UInt8.toNat_add]
  by_cases h : 255 < a.toNat + b.toNat
  · rw [decide_eq_true h, Bool.toNat_true]
    omega
  · rw [decide_eq_false h, Bool.toNat_false]
    omega

/-- A difference is cut to a byte from below too. -/
theorem toNat_sub_emod (a b : UInt8) :
    ((a - b).toNat : ℤ) = ((a.toNat : ℤ) - b.toNat) % 256 := by
  have ha := a.toNat_lt
  have hb := b.toNat_lt
  rw [UInt8.toNat_sub]
  omega

theorem toNat_half (a : UInt8) : (a >>> 1).toNat = a.toNat / 2 := by
  rw [UInt8.toNat_shiftRight]
  exact Nat.shiftRight_eq_div_pow _ 1

theorem toNat_lowBit (a : UInt8) : (a &&& 1).toNat = a.toNat % 2 := by
  rw [UInt8.toNat_and]
  exact Nat.and_one_is_mod _

theorem toNat_double (a : UInt8) : (a <<< 1).toNat = 2 * a.toNat % 256 := by
  rw [UInt8.toNat_shiftLeft, Nat.mul_comm]
  exact congrArg (· % 256) (Nat.shiftLeft_eq _ 1)

theorem toNat_highBit (a : UInt8) : (a >>> 7).toNat = a.toNat / 128 := by
  rw [UInt8.toNat_shiftRight]
  exact Nat.shiftRight_eq_div_pow _ 7

/-! ## A result and a flag -/

/-- What is in a register, as a number. -/
def State.value (s : State) (x : Register) : ℕ := (s.v.get x).toNat

namespace Machine

variable {m : Machine} {x y : Register}

/-- What it means that an instruction gives Vx a result and VF a flag, and changes nothing else. The
    flag is up just if `raised` holds, and flag and result are as `law` has it. -/
structure Flagged (m : Machine) (x : Register) (raised : Prop) (law : ℕ → ℕ → Prop) (n : Machine) :
    Prop where
  bit : n.state.value flagRegister ≤ 1
  flag : n.state.value flagRegister = 1 ↔ raised
  /-- The result is lost if the flag goes to the same register. -/
  result : x ≠ flagRegister → law (n.state.value flagRegister) (n.state.value x)
  others {z : Register} (hx : z ≠ x) (hflag : z ≠ flagRegister) : n.state.v.get z = m.state.v.get z
  rest : n = { m with state := { m.state with v := n.state.v } }

/-- The flag is written last. -/
theorem flagged_setFlag {value flag : UInt8} {raised : Prop} {law : ℕ → ℕ → Prop}
    (hbit : flag.toNat ≤ 1) (hflag : flag.toNat = 1 ↔ raised) (hlaw : law flag.toNat value.toNat) :
    m.Flagged x raised law { m with state := (m.state.setV x value).setFlag flag } := by
  have flag_eq : ((m.state.setV x value).setFlag flag).value flagRegister = flag.toNat :=
    congrArg UInt8.toNat (State.get_setV_self _ flagRegister flag)
  refine ⟨?_, ?_, fun hx => ?_, fun hx hflag => ?_, rfl⟩
  · exact flag_eq.trans_le hbit
  · rw [← hflag, ← flag_eq]
  · have value_eq : ((m.state.setV x value).setFlag flag).value x = value.toNat :=
      congrArg UInt8.toNat ((State.get_setFlag_of_ne hx).trans (m.state.get_setV_self x value))
    rw [flag_eq, value_eq]
    exact hlaw
  · exact (State.get_setFlag_of_ne hflag).trans (State.get_setV_of_ne hx)

/-- A flag that tells whether something is so is up just then. -/
theorem flagged_setFlag_flagOf {value : UInt8} {raised : Prop} [Decidable raised]
    {law : ℕ → ℕ → Prop} (hlaw : law (decide raised).toNat value.toNat) :
    m.Flagged x raised law
      { m with state := (m.state.setV x value).setFlag (State.flagOf (decide raised)) } := by
  rw [← State.toNat_flagOf] at hlaw
  refine flagged_setFlag ?_ ?_ hlaw
  · rw [State.toNat_flagOf]
    exact Bool.toNat_le _
  · rw [State.toNat_flagOf, Bool.toNat_eq_one, decide_eq_true_iff]

theorem Flagged.free {raised : Prop} {law : ℕ → ℕ → Prop} {n : Machine}
    (h : m.Flagged x raised law n) (hwait : m.state.isWaiting = false) :
    n.state.isWaiting = false := by
  rw [h.rest]
  exact hwait

/-! ## The instructions -/

theorem exists_add (hwait : m.state.isWaiting = false) (x y : Register) :
    ∃ n, m.LeadsTo [.combine .add x y] n ∧
      m.Flagged x (255 < m.state.value x + m.state.value y)
        (fun flag result => 256 * flag + result = m.state.value x + m.state.value y) n :=
  ⟨_, leadsTo_of_next hwait ⟨trivial, nofun, nofun⟩ (fun _ => rfl) rfl,
    flagged_setFlag_flagOf (carry_add_toNat _ _)⟩

theorem exists_sub (hwait : m.state.isWaiting = false) (x y : Register) :
    ∃ n, m.LeadsTo [.combine .sub x y] n ∧
      m.Flagged x (m.state.value y < m.state.value x)
        (fun _ result => (result : ℤ) = ((m.state.value x : ℤ) - m.state.value y) % 256) n :=
  ⟨_, leadsTo_of_next hwait ⟨trivial, nofun, nofun⟩ (fun _ => rfl) rfl,
    flagged_setFlag_flagOf (toNat_sub_emod _ _)⟩

theorem exists_subFrom (hwait : m.state.isWaiting = false) (x y : Register) :
    ∃ n, m.LeadsTo [.combine .subFrom x y] n ∧
      m.Flagged x (m.state.value x < m.state.value y)
        (fun _ result => (result : ℤ) = ((m.state.value y : ℤ) - m.state.value x) % 256) n :=
  ⟨_, leadsTo_of_next hwait ⟨trivial, nofun, nofun⟩ (fun _ => rfl) rfl,
    flagged_setFlag_flagOf (toNat_sub_emod _ _)⟩

theorem exists_shiftRight (hwait : m.state.isWaiting = false) (x : Register) :
    ∃ n, m.LeadsTo [.shiftRight x] n ∧
      m.Flagged x (m.state.value x % 2 = 1)
        (fun flag result => 2 * result + flag = m.state.value x) n := by
  refine ⟨_, leadsTo_of_next hwait ⟨trivial, nofun, nofun⟩ (fun _ => rfl) rfl,
    flagged_setFlag ?_ ?_ ?_⟩
  · rw [toNat_lowBit]
    omega
  · rw [toNat_lowBit]
    rfl
  · rw [toNat_lowBit, toNat_half]
    exact Nat.div_add_mod _ 2

theorem exists_shiftLeft (hwait : m.state.isWaiting = false) (x : Register) :
    ∃ n, m.LeadsTo [.shiftLeft x] n ∧
      m.Flagged x (128 ≤ m.state.value x)
        (fun flag result => 256 * flag + result = 2 * m.state.value x) n := by
  have bound : m.state.value x < 256 := (m.state.v.get x).toNat_lt
  refine ⟨_, leadsTo_of_next hwait ⟨trivial, nofun, nofun⟩ (fun _ => rfl) rfl,
    flagged_setFlag ?_ ?_ ?_⟩
  · rw [toNat_highBit]
    show m.state.value x / 128 ≤ 1
    omega
  · rw [toNat_highBit]
    show m.state.value x / 128 = 1 ↔ _
    omega
  · rw [toNat_highBit, toNat_double]
    show 256 * (m.state.value x / 128) + 2 * m.state.value x % 256 = _
    omega

/-- A byte is added without a flag. -/
theorem exists_addByte (hwait : m.state.isWaiting = false) (x : Register) (kk : UInt8) :
    ∃ n, m.LeadsTo [.addByte x kk] n ∧
      n.state.value x = (m.state.value x + kk.toNat) % 256 ∧
      (∀ z ≠ x, n.state.v.get z = m.state.v.get z) ∧
      n = { m with state := { m.state with v := n.state.v } } := by
  refine ⟨_, leadsTo_of_next hwait ⟨trivial, nofun, nofun⟩ (fun _ => rfl) rfl, ?_,
    fun z hz => State.get_setV_of_ne hz, rfl⟩
  have sum := congrArg UInt8.toNat (m.state.get_setV_self x (m.state.v.get x + kk))
  exact sum.trans (UInt8.toNat_add _ _)

/-- What was added can be subtracted again, if the flag is not in the way. -/
theorem exists_add_sub (hwait : m.state.isWaiting = false) (hxy : x ≠ y) (hx : x ≠ flagRegister)
    (hy : y ≠ flagRegister) :
    ∃ n, m.LeadsTo [.combine .add x y, .combine .sub x y] n ∧
      n.state.v.get x = m.state.v.get x := by
  obtain ⟨n, added, sum⟩ := exists_add hwait x y
  obtain ⟨p, subtracted, difference⟩ := exists_sub (sum.free hwait) x y
  have sum_eq := sum.result hx
  have difference_eq := difference.result hx
  have operand : n.state.value y = m.state.value y := congrArg UInt8.toNat (sum.others hxy.symm hy)
  have bound : m.state.value x < 256 := (m.state.v.get x).toNat_lt
  refine ⟨p, added.append subtracted, UInt8.toNat_inj.mp ?_⟩
  show p.state.value x = m.state.value x
  rw [operand] at difference_eq
  omega

/-- **Main theorem.** A sum, a difference, or one the other way round, of two registers: what the
    flag tells, and which law it obeys with the result. The two may be one register, and each may be
    the flag register. A shift halves or doubles, the flag being the bit that falls out, and does
    not depend on the digit of the second register. A byte is added without a flag. If three registers
    are three, to add and then to subtract restores the first. -/
theorem results_and_flags (m : Machine) (hwait : m.state.isWaiting = false) (x : Register) :
    (∀ y : Register,
      (∃ n, m.LeadsTo [.combine .add x y] n ∧
        m.Flagged x (255 < m.state.value x + m.state.value y)
          (fun flag result => 256 * flag + result = m.state.value x + m.state.value y) n) ∧
      (∃ n, m.LeadsTo [.combine .sub x y] n ∧
        m.Flagged x (m.state.value y < m.state.value x)
          (fun _ result => (result : ℤ) = ((m.state.value x : ℤ) - m.state.value y) % 256) n) ∧
      ∃ n, m.LeadsTo [.combine .subFrom x y] n ∧
        m.Flagged x (m.state.value x < m.state.value y)
          (fun _ result => (result : ℤ) = ((m.state.value y : ℤ) - m.state.value x) % 256) n) ∧
    (∃ n, m.LeadsTo [.shiftRight x] n ∧
      m.Flagged x (m.state.value x % 2 = 1)
        (fun flag result => 2 * result + flag = m.state.value x) n) ∧
    (∃ n, m.LeadsTo [.shiftLeft x] n ∧
      m.Flagged x (128 ≤ m.state.value x)
        (fun flag result => 256 * flag + result = 2 * m.state.value x) n) ∧
    (∀ kk, ∃ n, m.LeadsTo [.addByte x kk] n ∧
      n.state.value x = (m.state.value x + kk.toNat) % 256 ∧
      (∀ z ≠ x, n.state.v.get z = m.state.v.get z) ∧
      n = { m with state := { m.state with v := n.state.v } }) ∧
    ∀ y, x ≠ y → x ≠ flagRegister → y ≠ flagRegister →
      ∃ n, m.LeadsTo [.combine .add x y, .combine .sub x y] n ∧
        n.state.v.get x = m.state.v.get x :=
  ⟨fun y => ⟨exists_add hwait x y, exists_sub hwait x y, exists_subFrom hwait x y⟩,
    exists_shiftRight hwait x, exists_shiftLeft hwait x, exists_addByte hwait x,
    fun _ => exists_add_sub hwait⟩

/-- VF as the first operand and as both, and a sum that is taken back. -/
theorem results_and_flags_of_flag_operand :
    let m := (new (.ofBytes #[])).run
      [(.allUp, .execute 0x6FC8), (.allUp, .execute 0x6164), (.allUp, .execute 0x62FF)]
    m.state.isWaiting = false ∧ (1 : Register) ≠ 2 ∧ (1 : Register) ≠ flagRegister ∧
      (2 : Register) ≠ flagRegister ∧
      (∃ n, m.LeadsTo [.combine .add 0xF 1] n ∧ n.state.value 0xF = 1 ∧ n.state.value 1 = 100) ∧
      (∃ n, m.LeadsTo [.combine .sub 0xF 0xF] n ∧ n.state.value 0xF = 0) ∧
      ∃ n, m.LeadsTo [.combine .add 1 2, .combine .sub 1 2] n ∧ n.state.v.get 1 = 100 := by
  intro m
  have hwait : m.state.isWaiting = false := rfl
  have first : m.state.value 0xF = 200 := rfl
  have second : m.state.value 1 = 100 := rfl
  obtain ⟨pairs, -, -, -, -⟩ := results_and_flags m hwait 0xF
  obtain ⟨-, -, -, -, back⟩ := results_and_flags m hwait 1
  obtain ⟨sum, added, sum_flagged⟩ := (pairs 1).1
  obtain ⟨difference, subtracted, difference_flagged⟩ := (pairs 0xF).2.1
  refine ⟨hwait, by decide, by decide, by decide, ⟨sum, added, ?_, ?_⟩,
    ⟨difference, subtracted, ?_⟩, back 2 (by decide) (by decide) (by decide)⟩
  · refine sum_flagged.flag.mpr ?_
    rw [first, second]
    decide
  · exact congrArg UInt8.toNat (sum_flagged.others (z := 1) (by decide) (by decide))
  · have down : difference.state.value flagRegister ≠ 1 := by
      rw [Ne, difference_flagged.flag]
      exact lt_irrefl _
    exact Nat.lt_one_iff.mp (lt_of_le_of_ne difference_flagged.bit down)

end Machine

end Chip8
