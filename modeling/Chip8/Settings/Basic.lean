import Chip8.Settings.Numeral

/-!
# Settings

What the program is told before it starts: which program image to run, how many instructions to
perform a frame, how large to show a pixel, and where random bytes come from.

* `Setting`: what can be set; `Given` holds the values as text.
* `Settings`: the settings as values, with those left out filled in.
* `SettingFault`: a value that is no number of its setting, and `SettingFault.message`, in words.
* `Settings.ofGiven`: reads the values in a fixed order, so the first bad one is the one reported.
-/

namespace Chip8

/-- A setting with a value. -/
inductive Setting where
  /-- Instructions per frame. -/
  | stepsPerFrame
  /-- Window pixels per pixel of the screen. -/
  | scale
  /-- The seed of the random bytes. -/
  | seed
  deriving Repr, DecidableEq

/-- The name of a setting in messages. -/
def Setting.name : Setting → String
  | stepsPerFrame => "steps_per_frame"
  | scale => "scale"
  | seed => "seed"

/-- What the values of a setting stay below. -/
def Setting.bound : Setting → Nat
  | stepsPerFrame | scale => UInt32.size
  | seed => UInt64.size

/-- The settings as they were given: the path of the program, and the text of each value. -/
structure Given where
  program : String
  stepsPerFrame : Option String
  scale : Option String
  seed : Option String
  deriving Repr, DecidableEq

/-- The settings. -/
structure Settings where
  program : String
  stepsPerFrame : Nat
  scale : Nat
  seed : Option Nat
  deriving Repr, DecidableEq

namespace Settings

/-- Instructions per frame, if not told otherwise. -/
def defaultStepsPerFrame : Nat := 10

/-- Window pixels per pixel of the screen, if not told otherwise. -/
def defaultScale : Nat := 10

end Settings

/-- A setting whose value cannot be read. -/
structure SettingFault where
  setting : Setting
  value : String
  fault : NumeralFault
  deriving Repr, DecidableEq

/-- What is wrong with the value of a setting, in words. -/
def SettingFault.message (f : SettingFault) : String :=
  "invalid " ++ f.setting.name ++ " '" ++ f.value ++ "': " ++ f.fault.message

/-- The value of a setting, if it was given. -/
def Setting.read (setting : Setting) : Option String → Except SettingFault (Option Nat)
  | none => .ok none
  | some value =>
    match readNumeral setting.bound value with
    | .ok n => .ok (some n)
    | .error fault => .error ⟨setting, value, fault⟩

/-- The settings that were given. -/
def Settings.ofGiven (given : Given) : Except SettingFault Settings := do
  let stepsPerFrame ← Setting.read .stepsPerFrame given.stepsPerFrame
  let scale ← Setting.read .scale given.scale
  let seed ← Setting.read .seed given.seed
  return {
    program := given.program
    stepsPerFrame := stepsPerFrame.getD defaultStepsPerFrame
    scale := scale.getD defaultScale
    seed }

end Chip8
