/-!
# Numerals in settings

Reads the value of a setting that is a whole number: decimal digits, with a plus sign in front
if one likes. Values end below a bound that depends on the setting.

* `NumeralFault`: what can be wrong with a numeral, and `NumeralFault.message`, in words.
* `readDigits`: the digits behind those already read. The first character that is no digit, or
  that takes the value to the bound, decides what is wrong.
* `readNumeral`: the whole numeral.
-/

namespace Chip8

/-- What can be wrong with a numeral. -/
inductive NumeralFault where
  /-- There is nothing at all. -/
  | empty
  /-- A character is no digit. -/
  | invalidDigit
  /-- The value is not below the bound. -/
  | tooLarge
  deriving Repr, DecidableEq

/-- What is wrong with a numeral, in words. -/
def NumeralFault.message : NumeralFault → String
  | empty => "cannot parse integer from empty string"
  | invalidDigit => "invalid digit found in string"
  | tooLarge => "number too large to fit in target type"

/-- The value of a decimal digit. -/
def digitValue (c : Char) : Nat := c.toNat - '0'.toNat

/-- Reads the digits that follow those of value `value`. -/
def readDigits (bound value : Nat) : List Char → Except NumeralFault Nat
  | [] => .ok value
  | c :: rest =>
    if c.isDigit then
      let next := value * 10 + digitValue c
      if next < bound then readDigits bound next rest else .error .tooLarge
    else .error .invalidDigit

/-- Reads a numeral whose value is to be below `bound`. A sign needs digits behind it. -/
def readNumeral (bound : Nat) (text : String) : Except NumeralFault Nat :=
  match text.toList with
  | [] => .error .empty
  | ['+'] => .error .invalidDigit
  | '+' :: digits => readDigits bound 0 digits
  | digits => readDigits bound 0 digits

end Chip8
