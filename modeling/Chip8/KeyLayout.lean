/-!
# The key layout

The keypad is played on the four columns at the left of a keyboard:

```text
1 2 3 C      1 2 3 4
4 5 6 D      Q W E R
7 8 9 E      A S D F
A 0 B F      Z X C V
```

* `KeyLayout.keys`: the keys of the keyboard with the keys of the keypad they stand for.
* `KeyLayout.keypadKey?`: what a key of the keyboard stands for, if anything.
-/

namespace Chip8.KeyLayout

/-- The keys that are used, by name, with the numbers of the keys on the keypad. -/
def keys : List (String × UInt8) := [
  ("Num1", 0x1), ("Num2", 0x2), ("Num3", 0x3), ("Num4", 0xC),
  ("Q", 0x4), ("W", 0x5), ("E", 0x6), ("R", 0xD),
  ("A", 0x7), ("S", 0x8), ("D", 0x9), ("F", 0xE),
  ("Z", 0xA), ("X", 0x0), ("C", 0xB), ("V", 0xF)]

/-- The key of the keypad that the named key of the keyboard stands for. -/
def keypadKey? (name : String) : Option UInt8 :=
  (keys.find? fun (known, _) => known = name).map (·.2)

end Chip8.KeyLayout
