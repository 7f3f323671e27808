/-!
# Numerals

Whole numbers written in a positional base, as addresses, registers and bytes appear in
listings and messages.

* `digits`: the numeral of a number, most significant digit first, upper case above nine.
* `hex`, `decimal`: the numeral as text, hexadecimal ones filled with zeros to a least width.
* `address`, `byte`: the two marked forms, `0x200` and `0x0A`.
* `padRight`: text filled with blanks to a column width.
-/

namespace Chip8.Numeral

/-- The character of a digit below sixteen. -/
def digit (d : Nat) : Char :=
  if d < 10 then Char.ofNat (0x30 + d) else Char.ofNat (0x37 + d)

/-- The numeral of `n` in `base`, most significant digit first. Zero is the one digit `0`, and
    no other numeral begins with `0`. Bases below two have no numerals; there `n` itself stands
    as a single digit. -/
def digits (base n : Nat) : List Char :=
  if _small : n < base ∨ base < 2 then [digit n]
  else digits base (n / base) ++ [digit (n % base)]
termination_by n
decreasing_by exact Nat.div_lt_self (by omega) (by omega)

/-- The decimal numeral of `n`. -/
def decimal (n : Nat) : String := String.ofList (digits 10 n)

/-- The hexadecimal numeral of `n`, with zeros in front up to `width` digits. -/
def hex (width n : Nat) : String := String.ofList ((digits 16 n).leftpad width '0')

/-- An address, marked as hexadecimal, of at least three digits. -/
def address (a : UInt16) : String := "0x" ++ hex 3 a.toNat

/-- A byte, marked as hexadecimal, of two digits. -/
def byte (b : UInt8) : String := "0x" ++ hex 2 b.toNat

/-- An instruction word, marked as hexadecimal, of four digits. -/
def word (w : UInt16) : String := "0x" ++ hex 4 w.toNat

/-- `text` followed by as many blanks as it falls short of `width`. -/
def padRight (width : Nat) (text : String) : String :=
  text ++ String.ofList (List.replicate (width - text.length) ' ')

/-! ## Small facts -/

theorem digits_of_lt {base n : Nat} (h : n < base) : digits base n = [digit n] := by
  rw [digits]; simp [h]

end Chip8.Numeral
