/-!
# The screen

Sixty-four columns and thirty-two rows of pixels that are lit or dark. Both coordinates wrap
round, so the screen is a torus. A row is a bit vector whose most significant bit is the pixel
at column zero.

* `Screen.pixel`: the view of a screen, at any coordinates.
* `Screen.setPixel`: lights or darkens one pixel.
* `Screen.paint`, `Screen.collides`: flips the pixels under eight sprite bits, and tells whether
  that darkens one.
* `Screen.paintSprite`: paints the rows of a sprite one below the other.
* `pixel_setPixel`, `pixel_paint`: what the two operations do to the view.
-/

namespace Chip8

/-- The pixels of the display, row by row from the top. -/
structure Screen where
  rows : Vector (BitVec 64) 32
  deriving DecidableEq

namespace Screen

/-- Pixels in a row. -/
def width : Nat := 64

/-- Rows on the screen. -/
def height : Nat := 32

/-- The screen with every pixel dark. -/
def blank : Screen := ⟨Vector.replicate 32 0⟩

/-- The place of row `y`, counted round the torus. -/
def line (y : Nat) : Fin 32 := Fin.ofNat 32 y

/-- The row at `y`. -/
def row (s : Screen) (y : Nat) : BitVec 64 := s.rows[line y]

/-- The screen with the row at `y` replaced. -/
def setRow (s : Screen) (y : Nat) (r : BitVec 64) : Screen :=
  ⟨s.rows.set (line y) r⟩

/-- Whether the pixel at `x`, `y` is lit. -/
def pixel (s : Screen) (x y : Nat) : Bool := (s.row y).getMsbD (x % 64)

/-- Eight sprite bits placed in a row, the most significant one at column `x`. -/
def band (x : Nat) (bits : UInt8) : BitVec 64 :=
  (bits.toBitVec.setWidth 64 <<< 56).rotateRight (x % 64)

/-- The row in which only column `x` is lit. -/
def dot (x : Nat) : BitVec 64 := band x 0x80

/-- The screen with the pixel at `x`, `y` lit or dark. -/
def setPixel (s : Screen) (x y : Nat) (on : Bool) : Screen :=
  s.setRow y (if on then s.row y ||| dot x else s.row y &&& ~~~dot x)

/-- The screen with the eight sprite bits at `x`, `y` flipped in. -/
def paint (s : Screen) (x y : Nat) (bits : UInt8) : Screen :=
  s.setRow y (s.row y ^^^ band x bits)

/-- Whether one of the sprite bits at `x`, `y` meets a lit pixel, which painting would darken. -/
def collides (s : Screen) (x y : Nat) (bits : UInt8) : Bool :=
  s.row y &&& band x bits != 0

/-- Paints the rows of a sprite downwards from `x`, `y`, and tells whether any of them met a lit
    pixel. -/
def paintSprite (s : Screen) (x y : Nat) : List UInt8 → Screen × Bool
  | [] => (s, false)
  | bits :: rest =>
    let (painted, collided) := (s.paint x y bits).paintSprite x (y + 1) rest
    (painted, s.collides x y bits || collided)

/-- Whether every pixel is dark. -/
def isBlank (s : Screen) : Bool := s.rows.all (· == 0)

/-! ## The view of each operation -/

theorem row_setRow (s : Screen) (y z : Nat) (r : BitVec 64) :
    (s.setRow y r).row z = if y % 32 = z % 32 then r else s.row z := by
  simp [row, setRow, line, Vector.getElem_set]

@[simp] theorem row_blank (y : Nat) : blank.row y = 0 := by simp [row, blank]

@[simp] theorem pixel_blank (x y : Nat) : blank.pixel x y = false := by simp [pixel]

/-- Column `c` of a band holds the sprite bit that lies as far to the right of its start, if it
    is one of the eight. -/
theorem getMsbD_band (x c : Nat) (bits : UInt8) (hc : c < 64) :
    (band x bits).getMsbD c =
      (decide ((c + 64 - x % 64) % 64 < 8) && bits.toBitVec.getMsbD ((c + 64 - x % 64) % 64)) := by
  have hx : x % 64 < 64 := Nat.mod_lt _ (by decide)
  have shifted : ∀ k, k < 64 → (bits.toBitVec.setWidth 64 <<< 56).getMsbD k =
      (decide (k < 8) && bits.toBitVec.getMsbD k) := by
    intro k hk
    have e : k + 56 + 8 - 64 = k := by omega
    simp only [BitVec.getMsbD_shiftLeft, BitVec.getMsbD_setWidth, e]
    by_cases h8 : k < 8
    · simp [h8]
    · simp [h8, BitVec.getMsbD_of_ge bits.toBitVec k (by omega)]
  unfold band
  rw [BitVec.getMsbD_rotateRight, Nat.mod_eq_of_lt hx]
  by_cases h : c < x % 64
  · have e : (c + 64 - x % 64) % 64 = 64 + c - x % 64 := by omega
    rw [e]; simp only [h, ↓reduceIte, hc, decide_true, Bool.true_and]
    rw [Nat.mod_eq_of_lt (by omega), shifted _ (by omega)]
  · have e : (c + 64 - x % 64) % 64 = c - x % 64 := by omega
    rw [e]; simp only [h, ↓reduceIte, hc, decide_true, Bool.true_and]
    rw [shifted _ (by omega)]

/-- Painting flips a pixel when the row matches and the band has its column. -/
theorem pixel_paint (s : Screen) (x y : Nat) (bits : UInt8) (px py : Nat) :
    (s.paint x y bits).pixel px py =
      (s.pixel px py ^^ (decide (y % 32 = py % 32) && (band x bits).getMsbD (px % 64))) := by
  unfold pixel paint
  rw [row_setRow]
  by_cases h : y % 32 = py % 32
  · have e : s.row y = s.row py := by simp [row, line, h]
    simp [h, e]
  · simp [h]

/-- Only the addressed pixel changes when one is set. -/
theorem pixel_setPixel (s : Screen) (x y : Nat) (on : Bool) (px py : Nat) :
    (s.setPixel x y on).pixel px py =
      if x % 64 = px % 64 ∧ y % 32 = py % 32 then on else s.pixel px py := by
  have hd : (dot x).getMsbD (px % 64) = decide (x % 64 = px % 64) := by
    have hp : px % 64 < 64 := Nat.mod_lt _ (by decide)
    have hx : x % 64 < 64 := Nat.mod_lt _ (by decide)
    have tip : ∀ k, k < 8 → (0x80 : UInt8).toBitVec.getMsbD k = decide (k = 0) := by decide
    unfold dot
    rw [getMsbD_band _ _ _ hp]
    by_cases h : x % 64 = px % 64
    · have e : (px % 64 + 64 - x % 64) % 64 = 0 := by omega
      rw [e]; simp only [h, decide_true]; decide
    · by_cases h8 : (px % 64 + 64 - x % 64) % 64 < 8
      · rw [tip _ h8]
        have : (px % 64 + 64 - x % 64) % 64 ≠ 0 := by omega
        simp [h, this]
      · simp [h, h8]
  have hp : px % 64 < 64 := Nat.mod_lt _ (by decide)
  unfold pixel setPixel
  rw [row_setRow]
  by_cases hy : y % 32 = py % 32
  · have e : s.row y = s.row py := by simp [row, line, hy]
    cases on <;> by_cases hx : x % 64 = px % 64 <;> simp [hx, hy, e, hd, hp]
  · simp [hy]

/-- Two screens that agree at every pixel are the same. -/
theorem ext_pixel {s t : Screen} (h : ∀ x < 64, ∀ y < 32, s.pixel x y = t.pixel x y) : s = t := by
  cases s with | mk a => cases t with | mk b =>
  congr 1
  apply Vector.ext
  intro y hy
  apply BitVec.eq_of_getMsbD_eq
  intro x hx
  have := h x hx y hy
  simpa [pixel, row, line, Nat.mod_eq_of_lt hx, Nat.mod_eq_of_lt hy] using this

end Screen

end Chip8
