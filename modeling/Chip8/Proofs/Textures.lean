import Chip8.Screen.Texture
import Mathlib.Tactic.Common

/-!
# Textures show the screen

A picture is laid out by rows, a row by pixels and a pixel by colours, which are three equal bytes.
The place of a byte therefore gives the row, the column and the colour again, and the picture leaves
nothing of the screen out.

* `getElem?_flatMap`: the place of an element in pieces of one length.
* `Screen.getElem?_texture`: what stands at a place of the picture.
* `Screen.texture_injective`: screens with one picture are the same.
* `Screen.getElem?_texture_setPixel`: a pixel that is set takes up three bytes of the picture.
* `Screen.texture_shows_screen`: the main theorem.
-/

namespace Chip8

/-! ## Pieces of one length -/

/-- Pieces of length `k` one after the other: at `k * i + j` stands element `j` of piece `i`. -/
theorem getElem?_flatMap {α β : Type} {f : α → List β} {k j : ℕ} (hf : ∀ a, (f a).length = k)
    (hj : j < k) (list : List α) (i : ℕ) :
    (list.flatMap f)[k * i + j]? = list[i]?.bind fun a => (f a)[j]? := by
  induction list generalizing i with
  | nil => rfl
  | cons first rest ih =>
    rw [List.flatMap_cons]
    cases i with
    | zero =>
      have inside : k * 0 + j < (f first).length := by rw [hf]; omega
      rw [List.getElem?_append_left inside]
      simp
    | succ i =>
      have next : k * (i + 1) + j = k + (k * i + j) := by rw [Nat.mul_succ]; omega
      have outside : (f first).length ≤ k * (i + 1) + j := by rw [hf]; omega
      rw [List.getElem?_append_right outside, hf, next, Nat.add_sub_cancel_left, ih]
      simp

namespace Screen

/-! ## Bytes of a picture -/

theorem shade_injective : Function.Injective shade := by
  unfold Function.Injective
  decide

theorem getElem?_textureRow (s : Screen) (y : ℕ) {x c : ℕ} (hx : x < 64) (hc : c < 3) :
    (s.textureRow y)[3 * x + c]? = some (shade (s.pixel x y)) := by
  have three (x : ℕ) : (List.replicate 3 (shade (s.pixel x y))).length = 3 :=
    List.length_replicate
  unfold textureRow
  rw [getElem?_flatMap three hc, List.getElem?_range (show x < width from hx), Option.bind_some,
    List.getElem?_replicate_of_lt hc]

theorem getElem?_texture_of_lt (s : Screen) {x y c : ℕ} (hx : x < 64) (hy : y < 32) (hc : c < 3) :
    s.texture[3 * (64 * y + x) + c]? = some (shade (s.pixel x y)) := by
  have place : 3 * (64 * y + x) + c = 192 * y + (3 * x + c) := by omega
  unfold texture
  rw [place, getElem?_flatMap (length_textureRow s) (by omega),
    List.getElem?_range (show y < height from hy)]
  exact getElem?_textureRow s y hx hc

/-- The place of a byte, divided by the lengths of a pixel and of a row, gives its pixel. -/
theorem getElem?_texture (s : Screen) {k : ℕ} (hk : k < 6144) :
    s.texture[k]? = some (shade (s.pixel (k / 3 % 64) (k / 192))) := by
  have place : 3 * (64 * (k / 192) + k / 3 % 64) + k % 3 = k := by omega
  have here := getElem?_texture_of_lt s (x := k / 3 % 64) (y := k / 192) (c := k % 3)
    (Nat.mod_lt _ (by decide)) (by omega) (Nat.mod_lt _ (by decide))
  rwa [place] at here

theorem texture_injective : Function.Injective texture := by
  intro s t h
  apply ext_pixel
  intro x hx y hy
  have first : some (shade (s.pixel x y)) = some (shade (t.pixel x y)) := by
    rw [← getElem?_texture_of_lt s hx hy (by decide : 0 < 3), h,
      getElem?_texture_of_lt t hx hy (by decide)]
  exact shade_injective (Option.some.inj first)

/-- A pixel that is set takes up three bytes of the picture, and the others are as they were. -/
theorem getElem?_texture_setPixel (s : Screen) (x y : ℕ) (on : Bool) (k : ℕ) :
    (s.setPixel x y on).texture[k]? =
      if k / 3 = 64 * (y % 32) + x % 64 then some (shade on) else s.texture[k]? := by
  by_cases hk : k < 6144
  · rw [getElem?_texture _ hk, getElem?_texture s hk, pixel_setPixel]
    have same : x % 64 = k / 3 % 64 % 64 ∧ y % 32 = k / 192 % 32 ↔
        k / 3 = 64 * (y % 32) + x % 64 := by omega
    simp only [same]
    split <;> rfl
  · have beyond (s : Screen) : s.texture[k]? = none := by
      rw [List.getElem?_eq_none_iff, length_texture]
      omega
    rw [if_neg (by omega), beyond, beyond]

/-- **Main theorem.** A picture has three bytes for each pixel, which are white if the pixel is lit
    and black if it is dark; the pixel in column `x` of row `y` is the one at `64 * y + x`. So
    screens are equal just if their pictures are, and setting a pixel, at coordinates as large as
    one likes, changes its three bytes and no others. -/
theorem texture_shows_screen :
    (∀ s : Screen, s.texture.length = 6144 ∧ ∀ x < 64, ∀ y < 32, ∀ c < 3,
      s.texture[3 * (64 * y + x) + c]? = some (if s.pixel x y then 255 else 0)) ∧
    (∀ s t : Screen, s = t ↔ s.texture = t.texture) ∧
    ∀ (s : Screen) (x y : ℕ) (on : Bool),
      (∀ c < 3, (s.setPixel x y on).texture[3 * (64 * (y % 32) + x % 64) + c]? =
        some (if on then 255 else 0)) ∧
      ∀ k, (∀ c < 3, k ≠ 3 * (64 * (y % 32) + x % 64) + c) →
        (s.setPixel x y on).texture[k]? = s.texture[k]? := by
  refine ⟨fun s => ⟨length_texture s, ?_⟩, fun s t => texture_injective.eq_iff.symm, ?_⟩
  · intro x hx y hy c hc
    exact getElem?_texture_of_lt s hx hy hc
  · intro s x y on
    constructor
    · intro c hc
      have here : (3 * (64 * (y % 32) + x % 64) + c) / 3 = 64 * (y % 32) + x % 64 := by omega
      rw [getElem?_texture_setPixel, if_pos here]
      rfl
    · intro k elsewhere
      have apart := elsewhere (k % 3) (Nat.mod_lt _ (by decide))
      rw [getElem?_texture_setPixel, if_neg (by omega)]

/-- One pixel of a blank screen, lit from the far side of the torus. -/
theorem texture_shows_screen_of_dot :
    (blank.setPixel 0xFFFFFFFFFFFFFFC1 33 true).pixel 1 1 = true ∧
      (blank.setPixel 0xFFFFFFFFFFFFFFC1 33 true).texture[3 * (64 * 1 + 1) + 2]? =
        some (if (blank.setPixel 0xFFFFFFFFFFFFFFC1 33 true).pixel 1 1 then 255 else 0) ∧
      (∀ c < 3, 198 ≠ 3 * (64 * (33 % 32) + 0xFFFFFFFFFFFFFFC1 % 64) + c) ∧
      (blank.setPixel 0xFFFFFFFFFFFFFFC1 33 true).texture[198]? = blank.texture[198]? := by
  obtain ⟨bytes, -, set⟩ := texture_shows_screen
  have lit : (blank.setPixel 0xFFFFFFFFFFFFFFC1 33 true).pixel 1 1 = true := by
    rw [pixel_setPixel, if_pos (by decide)]
  have elsewhere : ∀ c < 3, 198 ≠ 3 * (64 * (33 % 32) + 0xFFFFFFFFFFFFFFC1 % 64) + c := by decide
  exact ⟨lit, (bytes _).2 1 (by decide) 1 (by decide) 2 (by decide), elsewhere,
    (set blank 0xFFFFFFFFFFFFFFC1 33 true).2 198 elsewhere⟩

end Screen

end Chip8
