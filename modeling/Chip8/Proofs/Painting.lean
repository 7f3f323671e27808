import Chip8.Screen.Basic
import Mathlib.Data.Int.Notation
import Mathlib.Data.List.Forall2

/-!
# Painting on a torus

Rows of sprite bits are painted at coordinates of sixty-four bits, one bit after the other, each
flipping the pixel that it meets. All that counts in the end is how often a pixel was met: the
order of the rows does not matter, nor how often the coordinates went round the screen, and what
is painted twice is gone.

* `Stroke`: a row of sprite bits with its place, and `Stroke.covers`, the pixels it flips.
* `Screen.paintBits`: a row painted bit by bit, and `paintBits_eq`, that this is `Screen.paint`
  with `Screen.collides`.
* `Screen.strokes`, `Screen.collisions`: a list of rows painted one after the other.
* `pixel_strokes`: a pixel is flipped as often as strokes cover it.
* `Screen.XorAction`, `xorAction_strokes`: the main theorem.
-/

namespace Chip8

/-- A row of eight sprite bits to be painted. Its coordinates are words of sixty-four bits. -/
structure Stroke where
  x : UInt64
  y : UInt64
  bits : UInt8
  deriving Repr, DecidableEq

namespace Stroke

/-- The column of sprite bit `k`, counted from the left. Columns are words, too. -/
def column (p : Stroke) (k : ℕ) : UInt64 := p.x + UInt64.ofNat k

/-- Whether sprite bit `k`, counted from the left, is set. -/
def isSet (p : Stroke) (k : ℕ) : Bool := p.bits.toNat.testBit (7 - k)

/-- How far column `px` lies to the right of the stroke's first one, round the torus. -/
def offset (p : Stroke) (px : ℕ) : ℕ := (((px : ℤ) - (p.x.toNat : ℤ)) % 64).toNat

/-- Whether the pixel at `px`, `py` lies under a sprite bit that is set. -/
def covers (p : Stroke) (px py : ℕ) : Bool :=
  decide (p.y.toNat % 32 = py) && decide (p.offset px < 8) && p.isSet (p.offset px)

/-- Whether two strokes have the same bits at the same place of the torus. -/
def SamePlace (p q : Stroke) : Prop :=
  p.x.toNat % 64 = q.x.toNat % 64 ∧ p.y.toNat % 32 = q.y.toNat % 32 ∧ p.bits = q.bits

/-! ## Places on the torus -/

theorem offset_eq (p : Stroke) {px : ℕ} (hpx : px < 64) :
    p.offset px = (px + 64 - p.x.toNat % 64) % 64 := by
  unfold offset
  omega

/-- The wrap of the words is no wrap of the screen's own. -/
theorem column_mod (p : Stroke) {k : ℕ} (hk : k < 8) :
    (p.column k).toNat % 64 = (p.x.toNat + k) % 64 := by
  have word : (UInt64.ofNat k).toNat = k := by
    rw [UInt64.toNat_ofNat']
    omega
  unfold column
  rw [UInt64.toNat_add, word]
  omega

theorem offset_eq_iff (p : Stroke) {px k : ℕ} (hpx : px < 64) (hk : k < 8) :
    p.offset px = k ↔ (p.column k).toNat % 64 = px := by
  rw [p.offset_eq hpx, p.column_mod hk]
  omega

theorem isSet_eq (p : Stroke) {k : ℕ} (hk : k < 8) : p.isSet k = p.bits.toBitVec.getMsbD k := by
  have index : 8 - 1 - k = 7 - k := by omega
  rw [BitVec.getMsbD_eq_getLsbD, index]
  simp [isSet, hk, BitVec.getLsbD]

/-- Some sprite bit is set if the row is not empty. -/
theorem exists_isSet_iff (p : Stroke) : (∃ k < 8, p.isSet k = true) ↔ p.bits ≠ 0 := by
  constructor
  · rintro ⟨k, -, hset⟩ hzero
    simp [isSet, hzero] at hset
  · intro hne
    by_contra hnone
    have lt : p.bits.toNat < 2 ^ 8 := p.bits.toNat_lt
    have zero : p.bits.toNat = 0 := by
      apply Nat.eq_of_testBit_eq
      intro j
      rw [Nat.zero_testBit]
      by_cases hj : j < 8
      · have same : 7 - (7 - j) = j := by omega
        by_contra hset
        refine hnone ⟨7 - j, by omega, ?_⟩
        unfold isSet
        rw [same]
        simpa using hset
      · have le : 2 ^ 8 ≤ 2 ^ j := Nat.pow_le_pow_right (by decide) (by omega)
        exact Nat.testBit_lt_two_pow (Nat.lt_of_lt_of_le lt le)
    exact hne (UInt8.toNat_inj.mp zero)

/-- What a stroke covers in its row are the columns of the sprite bits that are set. -/
theorem covers_iff (p : Stroke) {px py : ℕ} (hpx : px < 64) :
    p.covers px py = true ↔
      p.y.toNat % 32 = py ∧ ∃ k < 8, p.isSet k = true ∧ (p.column k).toNat % 64 = px := by
  unfold covers
  simp only [Bool.and_eq_true, decide_eq_true_eq]
  constructor
  · rintro ⟨⟨hy, hlt⟩, hset⟩
    exact ⟨hy, _, hlt, hset, (p.offset_eq_iff hpx hlt).mp rfl⟩
  · rintro ⟨hy, k, hk, hset, hcolumn⟩
    have here : p.offset px = k := (p.offset_eq_iff hpx hk).mpr hcolumn
    rw [here]
    exact ⟨⟨hy, hk⟩, hset⟩

end Stroke

namespace Screen

/-- The screen with a stroke painted. -/
def stroke (s : Screen) (p : Stroke) : Screen := s.paint p.x.toNat p.y.toNat p.bits

/-- Whether a stroke meets a lit pixel. -/
def meets (s : Screen) (p : Stroke) : Bool := s.collides p.x.toNat p.y.toNat p.bits

/-- The screen with strokes painted, the first one first. -/
def strokes (s : Screen) (list : List Stroke) : Screen := list.foldl stroke s

/-- Whether each of several strokes meets a lit pixel when it is painted. -/
def collisions (s : Screen) : List Stroke → List Bool
  | [] => []
  | p :: rest => s.meets p :: (s.stroke p).collisions rest

/-- The pixel under sprite bit `k` flipped, if that bit is set; with the note whether a lit pixel
    was met so far. -/
def paintBit (p : Stroke) (s : Screen × Bool) (k : ℕ) : Screen × Bool :=
  if p.isSet k then
    let lit := s.1.pixel (p.column k).toNat p.y.toNat
    (s.1.setPixel (p.column k).toNat p.y.toNat !lit, s.2 || lit)
  else s

/-- A stroke painted bit by bit, and whether it met a lit pixel. -/
def paintBits (s : Screen) (p : Stroke) : Screen × Bool :=
  (List.range 8).foldl (paintBit p) (s, false)

variable {s : Screen} {p q : Stroke}

/-! ## One stroke -/

theorem pixel_mod (s : Screen) (x y : ℕ) : s.pixel (x % 64) (y % 32) = s.pixel x y := by
  unfold pixel row line
  rw [Nat.mod_mod]
  congr 2
  apply Fin.ext
  change y % 32 % 32 = y % 32
  omega

/-- A stroke flips the pixels that it covers. -/
theorem pixel_stroke (s : Screen) (p : Stroke) {px py : ℕ} (hpx : px < 64) (hpy : py < 32) :
    (s.stroke p).pixel px py = (s.pixel px py ^^ p.covers px py) := by
  have column : px % 64 = px := Nat.mod_eq_of_lt hpx
  have line : py % 32 = py := Nat.mod_eq_of_lt hpy
  unfold stroke Stroke.covers
  rw [pixel_paint, column, line, getMsbD_band _ _ _ hpx, ← p.offset_eq hpx, Bool.and_assoc]
  by_cases hlt : p.offset px < 8
  · rw [p.isSet_eq hlt]
  · simp [hlt]

/-- A stroke in the last column goes on in the first one. -/
example : (blank.stroke ⟨0xFFFFFFFFFFFFFFFF, 0xFFFFFFFFFFFFFFFF, 0xC0⟩).pixel 0 31 = true := by
  decide

/-- The lit pixels under a stroke, as bits of its row. -/
theorem getMsbD_row_band (s : Screen) (p : Stroke) {px : ℕ} (hpx : px < 64) :
    (s.row p.y.toNat &&& band p.x.toNat p.bits).getMsbD px =
      (p.covers px (p.y.toNat % 32) && s.pixel px (p.y.toNat % 32)) := by
  have stroked := s.pixel_stroke p hpx (Nat.mod_lt p.y.toNat (show 32 > 0 by decide))
  unfold stroke at stroked
  rw [pixel_paint, Nat.mod_mod, Nat.mod_eq_of_lt hpx] at stroked
  have band_eq : (band p.x.toNat p.bits).getMsbD px = p.covers px (p.y.toNat % 32) := by
    simpa using stroked
  have row_eq : (s.row p.y.toNat).getMsbD px = s.pixel px (p.y.toNat % 32) := by
    have here := s.pixel_mod px p.y.toNat
    rw [Nat.mod_eq_of_lt hpx] at here
    rw [here, pixel, Nat.mod_eq_of_lt hpx]
  rw [BitVec.getMsbD_and, band_eq, row_eq, Bool.and_comm]

theorem row_ne_zero_iff (r : BitVec 64) : (r != 0) = true ↔ ∃ px < 64, r.getMsbD px = true := by
  rw [bne_iff_ne]
  constructor
  · intro hne
    by_contra hnone
    refine hne (BitVec.eq_of_getMsbD_eq fun px hpx => ?_)
    have dark : r.getMsbD px = false := Bool.eq_false_iff.mpr fun hlit => hnone ⟨px, hpx, hlit⟩
    simp [dark]
  · rintro ⟨px, -, hlit⟩ rfl
    simp at hlit

/-- A stroke meets a lit pixel if it covers one. -/
theorem meets_iff (s : Screen) (p : Stroke) :
    s.meets p = true ↔ ∃ px < 64, ∃ py < 32, p.covers px py = true ∧ s.pixel px py = true := by
  unfold meets collides
  rw [row_ne_zero_iff]
  constructor
  · rintro ⟨px, hpx, hlit⟩
    rw [s.getMsbD_row_band p hpx] at hlit
    exact ⟨px, hpx, _, Nat.mod_lt _ (by decide), Bool.and_eq_true_iff.mp hlit⟩
  · rintro ⟨px, hpx, py, -, hcovers, hlit⟩
    have line : p.y.toNat % 32 = py := ((p.covers_iff hpx).mp hcovers).1
    refine ⟨px, hpx, ?_⟩
    rw [s.getMsbD_row_band p hpx, line, hcovers, hlit]
    rfl

/-- Only the place of a stroke on the torus counts. -/
theorem stroke_congr (h : p.SamePlace q) (s : Screen) :
    s.stroke p = s.stroke q ∧ s.meets p = s.meets q := by
  obtain ⟨hx, hy, hbits⟩ := h
  have line_eq : line p.y.toNat = line q.y.toNat := Fin.ext hy
  have band_eq : band p.x.toNat p.bits = band q.x.toNat q.bits := by
    unfold band
    rw [hx, hbits]
  have row_eq : s.row p.y.toNat = s.row q.y.toNat := congrArg (s.rows[·]) line_eq
  have setRow_eq : s.setRow p.y.toNat = s.setRow q.y.toNat :=
    congrArg (fun (k : Fin 32) r => Screen.mk (s.rows.set k r)) line_eq
  unfold stroke meets paint collides
  rw [row_eq, setRow_eq, band_eq]
  exact ⟨rfl, rfl⟩

/-- A row painted twice meets a lit pixel once at least, unless it is empty. -/
theorem meets_again (s : Screen) (p : Stroke) :
    (s.meets p || (s.stroke p).meets p) = (p.bits != 0) := by
  rw [Bool.eq_iff_iff, Bool.or_eq_true, bne_iff_ne, ← p.exists_isSet_iff, meets_iff, meets_iff]
  constructor
  · rintro (⟨px, hpx, py, -, hcovers, -⟩ | ⟨px, hpx, py, -, hcovers, -⟩) <;>
    · obtain ⟨-, k, hk, hset, -⟩ := (p.covers_iff hpx).mp hcovers
      exact ⟨k, hk, hset⟩
  · rintro ⟨k, hk, hset⟩
    have hpx : (p.column k).toNat % 64 < 64 := Nat.mod_lt _ (by decide)
    have hpy : p.y.toNat % 32 < 32 := Nat.mod_lt _ (by decide)
    have hcovers : p.covers ((p.column k).toNat % 64) (p.y.toNat % 32) = true :=
      (p.covers_iff hpx).mpr ⟨rfl, k, hk, hset, rfl⟩
    by_cases hlit : s.pixel ((p.column k).toNat % 64) (p.y.toNat % 32) = true
    · exact .inl ⟨_, hpx, _, hpy, hcovers, hlit⟩
    · refine .inr ⟨_, hpx, _, hpy, hcovers, ?_⟩
      rw [s.pixel_stroke p hpx hpy, hcovers]
      simpa using hlit

/-! ## Bit by bit -/

/-- What there is after `n` bits of a stroke. -/
structure Painted (s : Screen) (p : Stroke) (n : ℕ) (now : Screen × Bool) : Prop where
  /-- The columns that lie under one of these bits are flipped. -/
  pixel {px py : ℕ} (hpx : px < 64) (hpy : py < 32) :
    now.1.pixel px py = (s.pixel px py ^^ (p.covers px py && decide (p.offset px < n)))
  /-- A lit pixel was met if one of them was lit at the start. -/
  met : now.2 = (List.range n).any fun k => p.isSet k && s.pixel (p.column k).toNat p.y.toNat

/-- A bit that is set flips its pixel, which no bit before it has touched. -/
theorem Painted.flip {n : ℕ} {now : Screen × Bool} (h : Painted s p n now) (hn : n < 8)
    (hset : p.isSet n = true) : Painted s p (n + 1) (paintBit p now n) := by
  have lit : now.1.pixel (p.column n).toNat p.y.toNat = s.pixel (p.column n).toNat p.y.toNat := by
    have hpx : (p.column n).toNat % 64 < 64 := Nat.mod_lt _ (by decide)
    have here := h.pixel hpx (Nat.mod_lt p.y.toNat (show 32 > 0 by decide))
    have offset : p.offset ((p.column n).toNat % 64) = n := (p.offset_eq_iff hpx hn).mpr rfl
    simpa [pixel_mod, offset] using here
  constructor
  · intro px py hpx hpy
    simp only [paintBit, hset, ↓reduceIte, pixel_setPixel, lit]
    rw [Nat.mod_eq_of_lt hpx, Nat.mod_eq_of_lt hpy, h.pixel hpx hpy]
    by_cases there : (p.column n).toNat % 64 = px ∧ p.y.toNat % 32 = py
    · have offset : p.offset px = n := (p.offset_eq_iff hpx hn).mpr there.1
      have covered : p.covers px py = true :=
        (p.covers_iff hpx).mpr ⟨there.2, n, hn, hset, there.1⟩
      have same : s.pixel (p.column n).toNat p.y.toNat = s.pixel px py := by
        rw [← there.1, ← there.2, pixel_mod]
      simp [there, offset, covered, same]
    · rw [if_neg there]
      by_cases hline : p.y.toNat % 32 = py
      · have other : p.offset px ≠ n := fun h => there ⟨(p.offset_eq_iff hpx hn).mp h, hline⟩
        have bound : p.offset px < n + 1 ↔ p.offset px < n := by omega
        simp only [bound]
      · simp [Stroke.covers, hline]
  · simp [paintBit, hset, h.met, lit, List.range_succ]

/-- A bit that is not set leaves its pixel alone. -/
theorem Painted.skip {n : ℕ} {now : Screen × Bool} (h : Painted s p n now)
    (hset : p.isSet n = false) : Painted s p (n + 1) (paintBit p now n) := by
  have same : paintBit p now n = now := by simp [paintBit, hset]
  rw [same]
  constructor
  · intro px py hpx hpy
    rw [h.pixel hpx hpy]
    by_cases offset : p.offset px = n
    · simp [Stroke.covers, offset, hset]
    · have bound : p.offset px < n + 1 ↔ p.offset px < n := by omega
      simp only [bound]
  · simp [hset, h.met, List.range_succ]

theorem painted_foldl (s : Screen) (p : Stroke) {n : ℕ} (hn : n ≤ 8) :
    Painted s p n ((List.range n).foldl (paintBit p) (s, false)) := by
  -- `List.range` grows at its end, as the bits are painted from the left.
  induction n with
  | zero => exact ⟨by simp, by simp⟩
  | succ n ih =>
    have before := ih (by omega)
    rw [List.range_succ, List.foldl_append]
    by_cases hset : p.isSet n = true
    · exact before.flip (by omega) hset
    · exact before.skip (Bool.eq_false_iff.mpr hset)

/-- To paint a stroke bit by bit is to flip all its pixels at once. -/
theorem paintBits_eq (s : Screen) (p : Stroke) : s.paintBits p = (s.stroke p, s.meets p) := by
  have painted : Painted s p 8 (s.paintBits p) := s.painted_foldl p (Nat.le_refl 8)
  refine Prod.ext (ext_pixel fun px hpx py hpy => ?_) ?_
  · rw [s.pixel_stroke p hpx hpy, painted.pixel hpx hpy]
    by_cases hlt : p.offset px < 8
    · simp [hlt]
    · simp [hlt, Stroke.covers]
  · rw [painted.met, Bool.eq_iff_iff, List.any_eq_true, meets_iff]
    constructor
    · rintro ⟨k, hk, hlit⟩
      obtain ⟨hset, hpixel⟩ := Bool.and_eq_true_iff.mp hlit
      have hpx : (p.column k).toNat % 64 < 64 := Nat.mod_lt _ (by decide)
      refine ⟨_, hpx, _, Nat.mod_lt p.y.toNat (by decide), ?_, (s.pixel_mod _ _).trans hpixel⟩
      exact (p.covers_iff hpx).mpr ⟨rfl, k, List.mem_range.mp hk, hset, rfl⟩
    · rintro ⟨px, hpx, py, -, hcovers, hlit⟩
      obtain ⟨hline, k, hk, hset, hcolumn⟩ := (p.covers_iff hpx).mp hcovers
      refine ⟨k, List.mem_range.mpr hk, ?_⟩
      rw [← hcolumn, ← hline, pixel_mod] at hlit
      rw [hset, hlit]
      rfl

/-! ## Several strokes -/

theorem strokes_append (s : Screen) (list more : List Stroke) :
    s.strokes (list ++ more) = (s.strokes list).strokes more := List.foldl_append

/-- A pixel is flipped as often as strokes cover it. -/
theorem pixel_strokes (s : Screen) (list : List Stroke) {px py : ℕ} (hpx : px < 64)
    (hpy : py < 32) : (s.strokes list).pixel px py =
      (s.pixel px py ^^ decide (list.countP (·.covers px py) % 2 = 1)) := by
  induction list generalizing s with
  | nil => simp [strokes]
  | cons p rest ih =>
    have rest_eq : s.strokes (p :: rest) = (s.stroke p).strokes rest := rfl
    rw [rest_eq, ih, s.pixel_stroke p hpx hpy, List.countP_cons, Bool.xor_assoc]
    refine congrArg _ ?_
    by_cases hcovers : p.covers px py = true
    · rw [hcovers, if_pos rfl]
      have flips : (rest.countP (·.covers px py) + 1) % 2 = 1 ↔
          ¬ rest.countP (·.covers px py) % 2 = 1 := by omega
      rw [Bool.true_xor, ← decide_not, decide_eq_decide]
      exact flips.symm
    · simp [hcovers]

/-- The order of strokes does not matter. -/
theorem strokes_perm {list other : List Stroke} (h : list.Perm other) (s : Screen) :
    s.strokes other = s.strokes list := by
  apply ext_pixel
  intro px hpx py hpy
  rw [s.pixel_strokes other hpx hpy, s.pixel_strokes list hpx hpy, h.countP_eq]

/-- What is painted twice, in whatever order, is gone. -/
theorem strokes_strokes {list other : List Stroke} (h : list.Perm other) (s : Screen) :
    (s.strokes list).strokes other = s := by
  apply ext_pixel
  intro px hpx py hpy
  -- Both lists together cover every pixel an even number of times.
  have twice : (list ++ other).countP (·.covers px py) % 2 ≠ 1 := by
    rw [List.countP_append, h.countP_eq]
    omega
  rw [← strokes_append, s.pixel_strokes _ hpx hpy, decide_eq_false twice, Bool.xor_false]

theorem strokes_congr {list other : List Stroke} (h : List.Forall₂ Stroke.SamePlace list other)
    (s : Screen) : s.strokes other = s.strokes list ∧ s.collisions other = s.collisions list := by
  induction h generalizing s with
  | nil => exact ⟨rfl, rfl⟩
  | @cons p q rest others hplace _ ih =>
    obtain ⟨stroke_eq, meets_eq⟩ := stroke_congr hplace s
    obtain ⟨rest_eq, collisions_eq⟩ := ih (s.stroke p)
    constructor
    · change (s.stroke q).strokes others = (s.stroke p).strokes rest
      rw [← stroke_eq, rest_eq]
    · change s.meets q :: (s.stroke q).collisions others = s.meets p :: (s.stroke p).collisions rest
      rw [← stroke_eq, ← meets_eq, collisions_eq]

theorem collisions_append (s : Screen) (list more : List Stroke) :
    s.collisions (list ++ more) = s.collisions list ++ (s.strokes list).collisions more := by
  induction list generalizing s with
  | nil => rfl
  | cons p rest ih => exact congrArg (s.meets p :: ·) (ih (s.stroke p))

theorem length_collisions (s : Screen) (list : List Stroke) :
    (s.collisions list).length = list.length := by
  induction list generalizing s with
  | nil => rfl
  | cons p rest ih => exact congrArg (· + 1) (ih (s.stroke p))

/-- The result of a stroke, by the screen on which it is painted. -/
theorem getElem?_collisions (s : Screen) (before : List Stroke) (p : Stroke)
    (after : List Stroke) :
    (s.collisions (before ++ p :: after))[before.length]? = some ((s.strokes before).meets p) := by
  rw [collisions_append, List.getElem?_append_right (Nat.le_of_eq (s.length_collisions before)),
    length_collisions, Nat.sub_self]
  rfl

/-! ## The group of strokes -/

/-- What it means that painting strokes is an action of exclusive or on a torus. -/
structure XorAction (s : Screen) (list : List Stroke) : Prop where
  /-- A pixel is flipped as often as strokes cover it. -/
  pixel (px : Fin 64) (py : Fin 32) : (s.strokes list).pixel px py =
    (s.pixel px py ^^ decide (list.countP (·.covers px py) % 2 = 1))
  /-- The order of the strokes does not matter. -/
  order {other : List Stroke} (h : list.Perm other) : s.strokes other = s.strokes list
  /-- The coordinates matter modulo the size of the screen only, -/
  torus {other : List Stroke} (h : List.Forall₂ Stroke.SamePlace list other) :
    s.strokes other = s.strokes list ∧ s.collisions other = s.collisions list
  /-- although each stroke is painted bit by bit, in columns that wrap as words do. -/
  bitwise {before after : List Stroke} {p : Stroke} (h : list = before ++ p :: after) :
    (s.strokes before).paintBits p =
      (s.strokes (before ++ [p]), (s.collisions list)[before.length]?.getD false)
  /-- Painting all strokes twice, in any two orders, restores the screen. -/
  twice {other : List Stroke} (h : list.Perm other) : (s.strokes list).strokes other = s
  /-- A stroke gives a collision if a pixel that it covers was lit when it was painted. -/
  collision {before after : List Stroke} {p : Stroke} (h : list = before ++ p :: after) :
    (s.collisions list)[before.length]? = some (decide (∃ (px : Fin 64) (py : Fin 32),
      p.covers px py = true ∧ (s.strokes before).pixel px py = true))
  /-- Of two equal strokes in a row, one gives a collision, unless its row is empty. -/
  again {before after : List Stroke} {p : Stroke} (h : list = before ++ p :: p :: after) :
    ∃ first second, (s.collisions list)[before.length]? = some first ∧
      (s.collisions list)[before.length + 1]? = some second ∧ (first || second) = (p.bits != 0)

/-- **Main theorem.** Painting strokes is an action of exclusive or on a torus. -/
theorem xorAction_strokes (s : Screen) (list : List Stroke) : s.XorAction list where
  pixel px py := s.pixel_strokes list px.isLt py.isLt
  order h := strokes_perm h s
  torus h := strokes_congr h s
  bitwise {before after p} h := by
    rw [h, getElem?_collisions, Option.getD_some, paintBits_eq, strokes_append]
    rfl
  twice h := strokes_strokes h s
  collision {before after p} h := by
    rw [h, getElem?_collisions, Option.some.injEq, Bool.eq_iff_iff, meets_iff, decide_eq_true_eq]
    constructor
    · rintro ⟨px, hpx, py, hpy, hmet⟩
      exact ⟨⟨px, hpx⟩, ⟨py, hpy⟩, hmet⟩
    · rintro ⟨px, py, hmet⟩
      exact ⟨px, px.isLt, py, py.isLt, hmet⟩
  again {before after p} h := by
    have second := s.getElem?_collisions (before ++ [p]) p after
    rw [List.append_assoc, List.length_append] at second
    refine ⟨_, _, h ▸ s.getElem?_collisions before p (p :: after), h ▸ second, ?_⟩
    rw [strokes_append]
    exact (s.strokes before).meets_again p

end Screen

end Chip8
