/-!
# Keys

The sixteen keys of the hexadecimal keypad. A key is named by a byte, since a program may ask
for any; bytes above fifteen name no key and are never down.

* `isKey`: whether a byte names a key.
* `HeldKeys`: which keys are down, with `HeldKeys.isDown`, `HeldKeys.press`, `HeldKeys.release`.
* `isDown_press`, `isDown_release`: pressing and releasing concern one key each.
-/

namespace Chip8

/-- Keys on the keypad. -/
def keyCount : Nat := 16

/-- Whether a byte names a key. -/
def isKey (key : UInt8) : Bool := key < 16

/-- The keys that are down. -/
structure HeldKeys where
  keys : Vector Bool 16
  deriving DecidableEq

namespace HeldKeys

/-- No key down. -/
def allUp : HeldKeys := ⟨Vector.replicate 16 false⟩

/-- Whether the key of this number is down. -/
def isDown (h : HeldKeys) (key : UInt8) : Bool := h.keys[key.toNat]?.getD false

/-- The keys with one of them down as well. -/
def press (h : HeldKeys) (key : UInt8) : HeldKeys := ⟨h.keys.setIfInBounds key.toNat true⟩

/-- The keys with one of them up. -/
def release (h : HeldKeys) (key : UInt8) : HeldKeys := ⟨h.keys.setIfInBounds key.toNat false⟩

@[simp] theorem isDown_allUp (key : UInt8) : allUp.isDown key = false := by
  simp only [isDown, allUp, Vector.getElem?_replicate]
  split <;> rfl

/-- What names no key is not down. -/
theorem isDown_of_not_isKey (h : HeldKeys) {key : UInt8} (nokey : isKey key = false) :
    h.isDown key = false := by
  have : 16 ≤ key.toNat := by simpa [isKey, UInt8.le_iff_toNat_le] using nokey
  simp [isDown, this]

/-- Releasing what names no key changes nothing. -/
theorem release_of_not_isKey (h : HeldKeys) {key : UInt8} (nokey : isKey key = false) :
    h.release key = h := by
  have : 16 ≤ key.toNat := by simpa [isKey, UInt8.le_iff_toNat_le] using nokey
  simp [release, Vector.setIfInBounds_eq_of_size_le this]

theorem isDown_press (h : HeldKeys) (pressed key : UInt8) :
    (h.press pressed).isDown key = (isKey key && (pressed == key || h.isDown key)) := by
  by_cases hk : key.toNat < 16
  · have key_in : isKey key = true := by simpa [isKey, UInt8.lt_iff_toNat_lt] using hk
    by_cases e : pressed = key
    · subst e; simp [isDown, press, key_in, hk]
    · have e' : pressed.toNat ≠ key.toNat := fun c => e (UInt8.toNat_inj.mp c)
      simp [isDown, press, key_in, e, e']
  · have key_out : isKey key = false := by simpa [isKey, UInt8.le_iff_toNat_le] using hk
    rw [isDown_of_not_isKey _ key_out, key_out]; rfl

theorem isDown_release (h : HeldKeys) (released key : UInt8) :
    (h.release released).isDown key = (released != key && h.isDown key) := by
  by_cases hk : key.toNat < 16
  · by_cases e : released = key
    · subst e; simp [isDown, release, hk]
    · have e' : released.toNat ≠ key.toNat := fun c => e (UInt8.toNat_inj.mp c)
      simp [isDown, release, e, e']
  · have key_out : isKey key = false := by simpa [isKey, UInt8.le_iff_toNat_le] using hk
    rw [isDown_of_not_isKey _ key_out, isDown_of_not_isKey _ key_out, Bool.and_false]

end HeldKeys

/-- What a listener is given when it is registered, and gives back to be taken off again. -/
structure Ticket where
  number : Nat
  deriving Repr, DecidableEq

end Chip8
