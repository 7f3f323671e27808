import Chip8.Screen.Basic

/-!
# Textures

A screen as a picture of twenty-four-bit colour: row by row, pixel by pixel, three bytes each,
white where the pixel is lit and black where it is dark.
-/

namespace Chip8.Screen

/-- The brightness of a pixel in each of its three colours. -/
def shade (on : Bool) : UInt8 := if on then 255 else 0

/-- The bytes of one row of the picture. -/
def textureRow (s : Screen) (y : Nat) : List UInt8 :=
  (List.range width).flatMap fun x => List.replicate 3 (shade (s.pixel x y))

/-- The bytes of the picture. -/
def texture (s : Screen) : List UInt8 :=
  (List.range height).flatMap s.textureRow

theorem length_textureRow (s : Screen) (y : Nat) : (s.textureRow y).length = 192 := by
  simp [textureRow, List.length_flatMap, width, List.map_const']

theorem length_texture (s : Screen) : s.texture.length = 6144 := by
  simp [texture, List.length_flatMap, length_textureRow, height, List.map_const']

end Chip8.Screen
