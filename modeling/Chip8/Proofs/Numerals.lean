import Chip8.Text.Numeral
import Mathlib.Data.Nat.Digits.Defs
import Mathlib.Tactic.Ring

/-!
# Numerals can be read back

A numeral stands for one number, whatever zeros are in front of it, and so do numerals that are
written behind each other with commas in between: a comma is no digit.

* `Numeral.value`: the number that a numeral stands for.
* `value_digits`, `value_hex`, `value_decimal`: it is the number whose numeral was written.
* `length_hex`: numerals that fill their width.
* `not_mem_hex`, `not_mem_decimal`: there is nothing but digits in a numeral.
* `Numeral.pieces`, `pieces_intercalate`: a list of texts is taken apart at its commas.
-/

namespace Chip8.Numeral

/-! ## Values -/

/-- The number that a character stands for as a digit. -/
def digitOf (c : Char) : ℕ := if c.toNat < 0x41 then c.toNat - 0x30 else c.toNat - 0x37

/-- The number that a numeral stands for, its most significant digit being the first. -/
def value (base : ℕ) (numeral : List Char) : ℕ := Nat.ofDigits base (numeral.map digitOf).reverse

variable {base n k width : ℕ} {c : Char} {numeral : List Char}

theorem digitOf_digit (h : n < 16) : digitOf (digit n) = n := by
  revert n
  decide

/-- One more digit at the end. -/
theorem value_concat (base : ℕ) (numeral : List Char) (c : Char) :
    value base (numeral ++ [c]) = value base numeral * base + digitOf c := by
  unfold value
  rw [List.map_append, List.map_singleton, List.reverse_append, List.reverse_singleton,
    List.singleton_append, Nat.ofDigits_cons]
  ring

theorem value_digits (hbase : 2 ≤ base) (hdigits : base ≤ 16) (n : ℕ) :
    value base (digits base n) = n := by
  induction n using Nat.strong_induction_on with
  | h n ih =>
    by_cases small : n < base
    · rw [digits_of_lt small]
      simpa [value] using digitOf_digit (small.trans_le hdigits)
    · have shorter : n / base < n := Nat.div_lt_self (by omega) hbase
      have last : n % base < 16 := (Nat.mod_lt n (by omega)).trans_le hdigits
      have more : ¬(n < base ∨ base < 2) := by omega
      rw [digits, dif_neg more, value_concat, ih _ shorter, digitOf_digit last]
      exact Nat.div_add_mod' n base

/-- Zeros in front do not count. -/
theorem value_leftpad (base width : ℕ) (numeral : List Char) :
    value base (numeral.leftpad width '0') = value base numeral := by
  have zero : digitOf '0' = 0 := rfl
  unfold value List.leftpad
  rw [List.map_append, List.map_replicate, zero, List.reverse_append, List.reverse_replicate,
    Nat.ofDigits_append_replicate_zero]

theorem value_hex (width n : ℕ) : value 16 (hex width n).toList = n := by
  unfold hex
  rw [String.toList_ofList, value_leftpad, value_digits (by decide) (by decide)]

theorem value_decimal (n : ℕ) : value 10 (decimal n).toList = n := by
  unfold decimal
  rw [String.toList_ofList, value_digits (by decide) (by decide)]

theorem exists_digit_of_mem_digits (hbase : 2 ≤ base) (h : c ∈ digits base n) :
    ∃ d < base, c = digit d := by
  induction n using Nat.strong_induction_on with
  | h n ih =>
    by_cases small : n < base
    · rw [digits_of_lt small] at h
      exact ⟨n, small, List.mem_singleton.mp h⟩
    · have shorter : n / base < n := Nat.div_lt_self (by omega) hbase
      have last : n % base < base := Nat.mod_lt n (by omega)
      have more : ¬(n < base ∨ base < 2) := by omega
      rw [digits, dif_neg more] at h
      rcases List.mem_append.mp h with before | here
      · exact ih _ shorter before
      · exact ⟨_, last, List.mem_singleton.mp here⟩

theorem not_mem_digits (hbase : 2 ≤ base) (hc : ∀ d < base, digit d ≠ c) (n : ℕ) :
    c ∉ digits base n := by
  intro h
  obtain ⟨d, hd, rfl⟩ := exists_digit_of_mem_digits hbase h
  exact hc d hd rfl

theorem not_mem_hex (hc : ∀ d < 16, digit d ≠ c) (width n : ℕ) : c ∉ (hex width n).toList := by
  unfold hex List.leftpad
  rw [String.toList_ofList]
  intro h
  rcases List.mem_append.mp h with zero | digit
  · exact hc 0 (by decide) (List.eq_of_mem_replicate zero).symm
  · exact not_mem_digits (by decide) hc n digit

theorem not_mem_decimal (hc : ∀ d < 10, digit d ≠ c) (n : ℕ) : c ∉ (decimal n).toList := by
  unfold decimal
  rw [String.toList_ofList]
  exact not_mem_digits (by decide) hc n

/-! ## Lengths -/

theorem length_digits_le (hbase : 2 ≤ base) (hk : 0 < k) (hn : n < base ^ k) :
    (digits base n).length ≤ k := by
  induction k, hk using Nat.le_induction generalizing n with
  | base =>
    rw [pow_one] at hn
    rw [digits_of_lt hn]
    rfl
  | succ k hk ih =>
    by_cases small : n < base
    · rw [digits_of_lt small]
      simp
    · have more : ¬(n < base ∨ base < 2) := by omega
      have hdiv : n / base < base ^ k := by
        rw [Nat.div_lt_iff_lt_mul (by omega), ← pow_succ]
        exact hn
      rw [digits, dif_neg more, List.length_append]
      exact Nat.add_le_add_right (ih hdiv) 1

theorem length_hex_ge (width n : ℕ) : width ≤ (hex width n).toList.length := by
  unfold hex
  rw [String.toList_ofList, List.length_leftpad]
  exact le_max_left _ _

theorem length_hex (hwidth : 0 < width) (hn : n < 16 ^ width) :
    (hex width n).toList.length = width := by
  unfold hex
  rw [String.toList_ofList, List.length_leftpad]
  exact max_eq_left (length_digits_le (by decide) hwidth hn)

/-! ## Marks -/

theorem toList_byte (b : UInt8) : (byte b).toList = '0' :: 'x' :: (hex 2 b.toNat).toList := by
  unfold byte
  rw [String.toList_append]
  rfl

theorem toList_address (a : UInt16) :
    (address a).toList = '0' :: 'x' :: (hex 3 a.toNat).toList := by
  unfold address
  rw [String.toList_append]
  rfl

/-! ## Lists -/

/-- The pieces of a text between its commas, without the first character of each. -/
def pieces (text : List Char) : List (List Char) := (text.splitOn ',').map List.tail

theorem blank_intercalate {texts : List (List Char)} (h : texts ≠ []) :
    ' ' :: [',', ' '].intercalate texts = [','].intercalate (texts.map (' ' :: ·)) := by
  induction texts with
  | nil => exact absurd rfl h
  | cons first rest ih =>
    cases rest with
    | nil => simp
    | cons second rest =>
      have later := ih (List.cons_ne_nil _ _)
      rw [List.map_cons] at later
      rw [List.intercalate_cons_cons, List.map_cons, List.map_cons, List.intercalate_cons_cons,
        ← later]
      simp

/-- Texts without commas are read back from a list of them, if there are any at all. -/
theorem pieces_intercalate {texts : List (List Char)} (h : texts ≠ [])
    (hcomma : ∀ text ∈ texts, ',' ∉ text) :
    pieces (' ' :: [',', ' '].intercalate texts) = texts := by
  have blanked : ∀ text ∈ texts.map (' ' :: ·), ',' ∉ text := by
    intro text htext
    obtain ⟨bare, hbare, rfl⟩ := List.mem_map.mp htext
    simpa using hcomma bare hbare
  unfold pieces
  rw [blank_intercalate h, List.splitOn_intercalate ',' blanked (by simpa using h), List.map_map]
  exact List.map_id texts

end Chip8.Numeral
