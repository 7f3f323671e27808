import Chip8.Proofs.Execution
import Chip8.Proofs.Painting

/-!
# Sprites

The bytes at the index register are a sprite, each of them a row of eight bits. Drawing goes through
the rows and through the bits of each row, flipping one pixel after the other, while the rows and
columns of the screen and the addresses of memory wrap. A sprite has no more rows than the screen,
and its rows are narrower, so no pixel lies under two of its bits: it does not matter that they are
painted one after the other, and the screen is the old one with the whole sprite flipped at once.

* `Stroke.Apart`: strokes that share no pixel.
* `pixel_strokes_of_apart`, `any_collisions_of_apart`: such strokes might be painted all at once.
* `Stroke.ofSprite`, `paintSprite_eq`: the rows of a sprite as strokes.
* `State.SpriteOver`: the pixels that lie under the set bits of a sprite.
* `State.Drawn`: a sprite flipped all at once, with its flag.
* `draw_flips_sprite`: the main theorem.
-/

namespace Chip8

/-! ## Strokes that share no pixel -/

namespace Stroke

/-- Whether no pixel lies under set bits of both strokes. -/
def Apart (p q : Stroke) : Prop :=
  ∀ px < 64, ∀ py < 32, p.covers px py = true → q.covers px py = false

/-- Strokes in different lines are apart. -/
theorem apart_of_line {p q : Stroke} (h : p.y.toNat % 32 ≠ q.y.toNat % 32) : p.Apart q := by
  intro px hpx py _ hp
  by_contra hq
  have line_p := ((p.covers_iff hpx).mp hp).1
  have line_q := ((q.covers_iff hpx).mp (Bool.eq_true_of_not_eq_false hq)).1
  exact h (line_p.trans line_q.symm)

end Stroke

namespace Screen

variable {list : List Stroke}

/-- Of strokes that are apart, each pixel is flipped once if it lies under one of them. -/
theorem pixel_strokes_of_apart (h : list.Pairwise Stroke.Apart) (s : Screen) {px py : ℕ}
    (hpx : px < 64) (hpy : py < 32) :
    (s.strokes list).pixel px py = (s.pixel px py ^^ list.any (·.covers px py)) := by
  induction list generalizing s with
  | nil => simp [strokes]
  | cons p rest ih =>
    obtain ⟨apart, hrest⟩ := List.pairwise_cons.mp h
    have rest_eq : s.strokes (p :: rest) = (s.stroke p).strokes rest := rfl
    rw [rest_eq, ih hrest, s.pixel_stroke p hpx hpy, List.any_cons, Bool.xor_assoc]
    by_cases hp : p.covers px py = true
    · have none : rest.any (·.covers px py) = false := by
        rw [List.any_eq_false]
        intro q hq
        rw [apart q hq px hpx py hpy hp]
        exact Bool.false_ne_true
      rw [hp, none]
      rfl
    · rw [Bool.eq_false_iff.mpr hp, Bool.false_xor, Bool.false_or]

/-- Of strokes that are apart, one meets a lit pixel if a pixel under one of them was lit before
    any was painted. -/
theorem any_collisions_of_apart (h : list.Pairwise Stroke.Apart) (s : Screen) :
    (s.collisions list).any id = true ↔
      ∃ px < 64, ∃ py < 32, s.pixel px py = true ∧ list.any (·.covers px py) = true := by
  induction list generalizing s with
  | nil => simp [collisions]
  | cons p rest ih =>
    obtain ⟨apart, hrest⟩ := List.pairwise_cons.mp h
    -- The first stroke leaves alone what lies under the later ones.
    have untouched {px py : ℕ} (hpx : px < 64) (hpy : py < 32)
        (hcovers : rest.any (·.covers px py) = true) :
        (s.stroke p).pixel px py = s.pixel px py := by
      obtain ⟨q, hq, hcovered⟩ := List.any_eq_true.mp hcovers
      have uncovered : p.covers px py = false := by
        by_contra hp
        have := apart q hq px hpx py hpy (Bool.eq_true_of_not_eq_false hp)
        rw [hcovered] at this
        cases this
      rw [s.pixel_stroke p hpx hpy, uncovered, Bool.xor_false]
    have cons_eq : (s.collisions (p :: rest)).any id =
        (s.meets p || ((s.stroke p).collisions rest).any id) := rfl
    rw [cons_eq, Bool.or_eq_true, meets_iff, ih hrest]
    constructor
    · rintro (⟨px, hpx, py, hpy, hcovers, hlit⟩ | ⟨px, hpx, py, hpy, hlit, hcovers⟩)
      · refine ⟨px, hpx, py, hpy, hlit, ?_⟩
        rw [List.any_cons, hcovers, Bool.true_or]
      · refine ⟨px, hpx, py, hpy, (untouched hpx hpy hcovers).symm.trans hlit, ?_⟩
        rw [List.any_cons, hcovers, Bool.or_true]
    · rintro ⟨px, hpx, py, hpy, hlit, hcovers⟩
      rw [List.any_cons, Bool.or_eq_true] at hcovers
      rcases hcovers with first | later
      · exact .inl ⟨px, hpx, py, hpy, first, hlit⟩
      · exact .inr ⟨px, hpx, py, hpy, (untouched hpx hpy later).trans hlit, later⟩

end Screen

/-! ## The rows of a sprite -/

namespace Stroke

/-- The rows of a sprite at `x`, `y` as strokes. -/
def ofSprite (x y : ℕ) : List UInt8 → List Stroke
  | [] => []
  | bits :: rest => ⟨UInt64.ofNat x, UInt64.ofNat y, bits⟩ :: ofSprite x (y + 1) rest

variable {x y : ℕ} {sprite : List UInt8} {p : Stroke}

theorem mem_ofSprite_iff : p ∈ ofSprite x y sprite ↔
    ∃ r bits, sprite[r]? = some bits ∧ p = ⟨UInt64.ofNat x, UInt64.ofNat (y + r), bits⟩ := by
  induction sprite generalizing y with
  | nil => simp [ofSprite]
  | cons first rest ih =>
    unfold ofSprite
    rw [List.mem_cons, ih]
    constructor
    · rintro (rfl | ⟨r, bits, hbits, rfl⟩)
      · exact ⟨0, first, rfl, rfl⟩
      · refine ⟨r + 1, bits, hbits, ?_⟩
        rw [Nat.add_assoc, Nat.add_comm 1]
    · rintro ⟨r, bits, hbits, rfl⟩
      cases r with
      | zero =>
        obtain rfl := Option.some.inj hbits
        exact .inl rfl
      | succ r =>
        refine .inr ⟨r, bits, hbits, ?_⟩
        rw [Nat.add_assoc, Nat.add_comm 1]

/-- A sprite that is not taller than the screen has its rows apart. -/
theorem pairwise_apart_ofSprite (hheight : sprite.length ≤ 32) :
    (ofSprite x y sprite).Pairwise Apart := by
  induction sprite generalizing y with
  | nil => exact .nil
  | cons first rest ih =>
    rw [List.length_cons] at hheight
    refine List.pairwise_cons.mpr ⟨fun q hq => apart_of_line ?_, ih (by omega)⟩
    obtain ⟨r, bits, hbits, rfl⟩ := mem_ofSprite_iff.mp hq
    have hr : r < rest.length := (List.getElem?_eq_some_iff.mp hbits).1
    simp only [UInt64.toNat_ofNat']
    omega

/-- What lies under the rows of a sprite. -/
theorem any_covers_ofSprite_iff {px py : ℕ} (hpx : px < 64) :
    (ofSprite x y sprite).any (·.covers px py) = true ↔
      ∃ r bits, sprite[r]? = some bits ∧
        ∃ b < 8, py = (y + r) % 32 ∧ px = (x + b) % 64 ∧ bits.toNat.testBit (7 - b) = true := by
  rw [List.any_eq_true]
  constructor
  · rintro ⟨p, hp, hcovers⟩
    obtain ⟨r, bits, hbits, rfl⟩ := mem_ofSprite_iff.mp hp
    obtain ⟨hline, b, hb, hset, hcolumn⟩ := (Stroke.covers_iff _ hpx).mp hcovers
    rw [column_mod _ hb] at hcolumn
    simp only [UInt64.toNat_ofNat'] at hline hcolumn
    exact ⟨r, bits, hbits, b, hb, by omega, by omega, hset⟩
  · rintro ⟨r, bits, hbits, b, hb, hline, hcolumn, hset⟩
    refine ⟨_, mem_ofSprite_iff.mpr ⟨r, bits, hbits, rfl⟩, (Stroke.covers_iff _ hpx).mpr ?_⟩
    refine ⟨?_, b, hb, hset, ?_⟩
    · simp only [UInt64.toNat_ofNat']
      omega
    · rw [column_mod _ hb]
      simp only [UInt64.toNat_ofNat']
      omega

end Stroke

/-- A sprite is painted stroke by stroke. -/
theorem Screen.paintSprite_eq (s : Screen) {x y : ℕ} {sprite : List UInt8} (hx : x < 2 ^ 64)
    (hy : y + sprite.length < 2 ^ 64) :
    s.paintSprite x y sprite =
      (s.strokes (Stroke.ofSprite x y sprite),
        (s.collisions (Stroke.ofSprite x y sprite)).any id) := by
  induction sprite generalizing s y with
  | nil => rfl
  | cons bits rest ih =>
    rw [List.length_cons] at hy
    have x_eq : (UInt64.ofNat x).toNat = x := by
      rw [UInt64.toNat_ofNat', Nat.mod_eq_of_lt hx]
    have y_eq : (UInt64.ofNat y).toNat = y := by
      rw [UInt64.toNat_ofNat', Nat.mod_eq_of_lt (by omega)]
    have here : s.stroke ⟨UInt64.ofNat x, UInt64.ofNat y, bits⟩ = s.paint x y bits := by
      unfold stroke
      simp only [x_eq, y_eq]
    have met : s.meets ⟨UInt64.ofNat x, UInt64.ofNat y, bits⟩ = s.collides x y bits := by
      unfold meets
      simp only [x_eq, y_eq]
    unfold paintSprite Stroke.ofSprite
    rw [ih (s.paint x y bits) (by omega), ← met, ← here]
    rfl

/-! ## What drawing does -/

namespace State

/-- Row `r` of the sprite at the index register. -/
def spriteRow (s : State) (r : ℕ) : UInt8 :=
  s.memory.cells.get ⟨(s.i.toNat + r) % 0x1000, Nat.mod_lt _ (by decide)⟩

/-- Bit `b`, counted from the left, of row `r` of the sprite. -/
def spriteBit (s : State) (r b : ℕ) : Bool := (s.spriteRow r).toNat.testBit (7 - b)

/-- Whether bit `b` of row `r` of the sprite is set and lies over a pixel, when the sprite is drawn
    at Vx, Vy. -/
def BitOver (s : State) (x y : Register) (px py r b : ℕ) : Prop :=
  py = ((s.v.get y).toNat + r) % 32 ∧ px = ((s.v.get x).toNat + b) % 64 ∧ s.spriteBit r b = true
  deriving Decidable

/-- Whether a set bit of the sprite of `n` rows lies over a pixel. -/
def SpriteOver (s : State) (x y : Register) (n : UInt8) (px py : ℕ) : Prop :=
  ∃ (r : Fin n.toNat) (b : Fin 8), s.BitOver x y px py r b
  deriving Decidable

/-- What it means that a sprite is flipped into the screen all at once, and nothing else is done
    but to leave a flag and a mark. -/
structure Drawn (s : State) (x y : Register) (n : UInt8) (t : State) : Prop where
  /-- No pixel lies under two bits of the sprite. -/
  unique {px py : ℕ} {r r' : Fin n.toNat} {b b' : Fin 8} (h : s.BitOver x y px py r b)
    (h' : s.BitOver x y px py r' b') : r = r' ∧ b = b'
  /-- The pixels under it are flipped. -/
  pixel (px : Fin 64) (py : Fin 32) :
    t.screen.pixel px py = (s.screen.pixel px py ^^ decide (s.SpriteOver x y n px py))
  /-- The flag tells whether one of them was lit, -/
  flag : t.v.get flagRegister = flagOf (decide
    (∃ (px : Fin 64) (py : Fin 32), s.screen.pixel px py = true ∧ s.SpriteOver x y n px py))
  /-- which is whether some pixel went dark. -/
  flag_eq_one_iff : t.v.get flagRegister = 1 ↔
    ∃ (px : Fin 64) (py : Fin 32), s.screen.pixel px py = true ∧ t.screen.pixel px py = false
  /-- The screen is marked, and all else is as before. -/
  rest : t = { s with
    v := s.v.set flagRegister.val (t.v.get flagRegister)
    screen := t.screen
    redraw := true }

variable {s t u : State} {x y : Register} {n : UInt8}

/-- The rows of a sprite that is not taller than the screen lie in different lines, and the bits of
    a row in different columns. -/
theorem BitOver.unique (hn : n.toNat ≤ 32) {px py : ℕ} {r r' : Fin n.toNat} {b b' : Fin 8}
    (h : s.BitOver x y px py r b) (h' : s.BitOver x y px py r' b') : r = r' ∧ b = b' := by
  obtain ⟨line, column, -⟩ := h
  obtain ⟨line', column', -⟩ := h'
  constructor
  · apply Fin.ext
    omega
  · apply Fin.ext
    omega

/-- The strokes that a sprite is painted with. -/
def spriteStrokes (s : State) (x y : Register) (n : UInt8) : List Stroke :=
  Stroke.ofSprite (s.v.get x).toNat (s.v.get y).toNat (s.memory.load s.i n.toNat)

theorem any_covers_spriteStrokes (px : Fin 64) (py : ℕ) :
    (s.spriteStrokes x y n).any (·.covers px py) = decide (s.SpriteOver x y n px py) := by
  have byte {r : ℕ} (hr : r < n.toNat) :
      (s.memory.load s.i n.toNat)[r]? = some (s.spriteRow r) := by
    rw [s.memory.getElem?_load s.i hr, Memory.peek_add]
    rfl
  unfold spriteStrokes
  rw [Bool.eq_iff_iff, decide_eq_true_iff, Stroke.any_covers_ofSprite_iff px.isLt]
  constructor
  · rintro ⟨r, bits, hbits, b, hb, hline, hcolumn, hset⟩
    have hr : r < n.toNat := by
      rw [← s.memory.length_load s.i n.toNat]
      exact (List.getElem?_eq_some_iff.mp hbits).1
    rw [byte hr] at hbits
    obtain rfl := Option.some.inj hbits
    exact ⟨⟨r, hr⟩, ⟨b, hb⟩, hline, hcolumn, hset⟩
  · rintro ⟨r, b, hline, hcolumn, hset⟩
    exact ⟨r, _, byte r.isLt, b, b.isLt, hline, hcolumn, hset⟩

theorem drawSprite_eq (s : State) (x y : Register) (n : UInt8) :
    s.drawSprite x y n = { s with
      v := s.v.set flagRegister.val
        (flagOf ((s.screen.collisions (s.spriteStrokes x y n)).any id))
      screen := s.screen.strokes (s.spriteStrokes x y n)
      redraw := true } := by
  have hx := (s.v.get x).toNat_lt
  have hy := (s.v.get y).toNat_lt
  have hn := n.toNat_lt
  have length : (s.v.get y).toNat + (s.memory.load s.i n.toNat).length < 2 ^ 64 := by
    rw [Memory.length_load]
    omega
  unfold drawSprite
  simp only
  rw [s.screen.paintSprite_eq (by omega) length]
  rfl

theorem flagOf_eq_one_iff (b : Bool) : flagOf b = 1 ↔ b = true := by
  cases b with
  | true => decide
  | false => decide

/-- The strokes of a sprite that is not taller than the screen are apart, so it is flipped at
    once. -/
theorem drawn_drawSprite (s : State) (x y : Register) (hn : n.toNat ≤ 32) :
    s.Drawn x y n (s.drawSprite x y n) := by
  have apart : (s.spriteStrokes x y n).Pairwise Stroke.Apart :=
    Stroke.pairwise_apart_ofSprite (by rw [Memory.length_load]; exact hn)
  have pixel (px : Fin 64) (py : Fin 32) : (s.drawSprite x y n).screen.pixel px py =
      (s.screen.pixel px py ^^ decide (s.SpriteOver x y n px py)) := by
    rw [drawSprite_eq, ← any_covers_spriteStrokes]
    exact Screen.pixel_strokes_of_apart apart s.screen px.isLt py.isLt
  have met : (s.screen.collisions (s.spriteStrokes x y n)).any id = decide
      (∃ (px : Fin 64) (py : Fin 32), s.screen.pixel px py = true ∧ s.SpriteOver x y n px py) := by
    rw [Bool.eq_iff_iff, Screen.any_collisions_of_apart apart, decide_eq_true_iff]
    constructor
    · rintro ⟨px, hpx, py, hpy, hlit, hover⟩
      refine ⟨⟨px, hpx⟩, ⟨py, hpy⟩, hlit, ?_⟩
      rwa [any_covers_spriteStrokes ⟨px, hpx⟩, decide_eq_true_iff] at hover
    · rintro ⟨px, py, hlit, hover⟩
      refine ⟨px, px.isLt, py, py.isLt, hlit, ?_⟩
      rwa [any_covers_spriteStrokes, decide_eq_true_iff]
  have flag : (s.drawSprite x y n).v.get flagRegister = flagOf (decide
      (∃ (px : Fin 64) (py : Fin 32), s.screen.pixel px py = true ∧ s.SpriteOver x y n px py)) := by
    rw [drawSprite_eq, ← met]
    exact s.get_setV_self flagRegister _
  refine ⟨BitOver.unique hn, pixel, flag, ?_, ?_⟩
  · -- What goes dark is what was lit and lies under the sprite.
    rw [flag, flagOf_eq_one_iff, decide_eq_true_iff]
    refine exists_congr fun px => exists_congr fun py => and_congr_right fun hlit => ?_
    rw [pixel, hlit]
    simp
  · rw [flag, drawSprite_eq, met]

/-! ## The same sprite drawn again -/

/-- The sprite lies over the same pixels after it was drawn, if the flag is none of its
    coordinates. -/
theorem Drawn.spriteOver_iff (h : s.Drawn x y n t) (hx : x ≠ flagRegister)
    (hy : y ≠ flagRegister) (px py : ℕ) :
    t.SpriteOver x y n px py ↔ s.SpriteOver x y n px py := by
  have kept {z : Register} (hz : z ≠ flagRegister) : t.v.get z = s.v.get z := by
    rw [h.rest]
    exact (s.get_setV flagRegister z _).trans (if_neg hz.symm)
  have bits (r b : ℕ) : t.spriteBit r b = s.spriteBit r b := by
    rw [h.rest]
    rfl
  unfold SpriteOver BitOver
  simp only [kept hx, kept hy, bits]

/-- Drawing a sprite twice restores the screen. -/
theorem Drawn.screen_eq (first : s.Drawn x y n t) (second : t.Drawn x y n u)
    (hx : x ≠ flagRegister) (hy : y ≠ flagRegister) : u.screen = s.screen := by
  apply Screen.ext_pixel
  intro px hpx py hpy
  have under := first.spriteOver_iff hx hy px py
  rw [second.pixel ⟨px, hpx⟩ ⟨py, hpy⟩, first.pixel ⟨px, hpx⟩ ⟨py, hpy⟩, decide_eq_decide.mpr under,
    Bool.xor_assoc, Bool.xor_self, Bool.xor_false]

/-- The second time, the flag tells whether a pixel under the sprite was dark before the first. -/
theorem Drawn.flag_again (first : s.Drawn x y n t) (second : t.Drawn x y n u)
    (hx : x ≠ flagRegister) (hy : y ≠ flagRegister) :
    u.v.get flagRegister = flagOf (decide (∃ (px : Fin 64) (py : Fin 32),
      s.SpriteOver x y n px py ∧ s.screen.pixel px py = false)) := by
  rw [second.flag]
  refine congrArg flagOf (decide_eq_decide.mpr ?_)
  refine exists_congr fun px => exists_congr fun py => ?_
  rw [first.spriteOver_iff hx hy, and_comm]
  refine and_congr_right fun hover => ?_
  rw [first.pixel, decide_eq_true hover]
  simp

end State

/-- To execute the word of a draw instruction is to draw the sprite, and to report it. -/
theorem Machine.execute_draw {m : Machine} {w : Word} {x y : Register} {n : UInt8}
    (hwait : m.state.isWaiting = false) (hw : Instruction.ofWord? w = some (.draw x y n))
    (held : HeldKeys) :
    m.execute held w = ⟨.ok (), { m with state := m.state.drawSprite x y n },
      [executingEntry m.state w (.draw x y n)]⟩ :=
  execute_of_next hwait hw rfl

namespace State

/-- **Main theorem.** To draw a sprite is to flip all pixels that lie under its bits, of which no
    two lie over one pixel; the flag tells whether a lit pixel went dark, the screen is marked, and
    nothing else changes. The coordinates are those from before, also if the flag is one of them.
    This is what the word of the instruction does on a machine. If the flag is none of the
    coordinates, the same instruction restores the screen, and its flag tells whether a pixel under
    the sprite was dark at first. -/
theorem draw_flips_sprite (s : State) (x y : Register) {n : UInt8} (hn : n < 16) :
    ∃ t, (∀ held byte, s.perform held byte (.draw x y n) = .ok t) ∧ s.Drawn x y n t ∧
      (∀ (m : Machine) (held : HeldKeys) (w : Word), m.state = s → s.isWaiting = false →
        Instruction.ofWord? w = some (.draw x y n) →
          (m.execute held w).result = .ok () ∧
            (m.execute held w).machine = { m with state := t }) ∧
      (x ≠ flagRegister → y ≠ flagRegister →
        ∃ u, (∀ held byte, t.perform held byte (.draw x y n) = .ok u) ∧ u.screen = s.screen ∧
          u.v.get flagRegister = flagOf (decide (∃ (px : Fin 64) (py : Fin 32),
            s.SpriteOver x y n px py ∧ s.screen.pixel px py = false))) := by
  have height : n.toNat ≤ 32 := by
    rw [UInt8.lt_iff_toNat_lt] at hn
    exact (Nat.le_of_lt hn).trans (by decide)
  have first := drawn_drawSprite s x y height
  refine ⟨s.drawSprite x y n, fun _ _ => rfl, first, ?_, fun hx hy => ?_⟩
  · rintro m held w rfl hwait hw
    rw [Machine.execute_draw hwait hw held]
    exact ⟨rfl, rfl⟩
  · have second := drawn_drawSprite (s.drawSprite x y n) x y height
    exact ⟨_, fun _ _ => rfl, first.screen_eq second hx hy, first.flag_again second hx hy⟩

/-- A sprite of two rows in the lower right corner, its second byte taken from behind the end of
    memory: that is the top of the glyph `0`, four bits that are set. They come out in the top line,
    two at its end and two at its start. Drawn again, they go dark. -/
theorem draw_flips_sprite_of_corner :
    let s := { State.initial with v := (State.initial.v.set 0 62).set 1 31, i := 0xFFF }
    let m : Machine := ⟨s, .ofBytes #[], .never⟩
    (2 : UInt8) < 16 ∧ (0 : Register) ≠ flagRegister ∧ (1 : Register) ≠ flagRegister ∧
      s.isWaiting = false ∧ Instruction.ofWord? 0xD012 = some (.draw 0 1 2) ∧
      (m.execute .allUp 0xD012).result = .ok () ∧
      let t := (m.execute .allUp 0xD012).machine.state
      t.screen.pixel 1 0 = true ∧ t.v.get flagRegister = 0 ∧
        ∃ u, t.perform .allUp 0 (.draw 0 1 2) = .ok u ∧ u.screen = .blank ∧
          u.v.get flagRegister = 1 := by
  intro s m
  have decoded : Instruction.ofWord? 0xD012 = some (.draw 0 1 2) := by decide
  have glyph : s.spriteRow 1 = 0xF0 := by
    have wrapped : (s.i.toNat + 1) % 0x1000 = 0 := by decide
    have first : Memory.initial.cells.get 0 = 0xF0 := Vector.getElem_ofFn _
    refine Eq.trans (congrArg s.memory.cells.get ?_) first
    exact Fin.ext wrapped
  have under : s.SpriteOver 0 1 2 (1 : Fin 64) (0 : Fin 32) := by
    have set : s.spriteBit 1 3 = true := by
      unfold spriteBit
      rw [glyph]
      decide
    have column : (s.v.get 0).toNat = 62 := by decide
    have line : (s.v.get 1).toNat = 31 := by decide
    refine ⟨⟨1, by decide⟩, 3, ?_, ?_, set⟩
    · rw [line]
      rfl
    · rw [column]
      rfl
  obtain ⟨t, -, drawn, executed, again⟩ := draw_flips_sprite s 0 1 (n := 2) (by decide)
  obtain ⟨result_eq, machine_eq⟩ := executed m .allUp 0xD012 rfl rfl decoded
  obtain ⟨u, performed, restored, flag_again⟩ := again (by decide) (by decide)
  have lit : t.screen.pixel 1 0 = true := by
    refine (drawn.pixel 1 0).trans ?_
    rw [decide_eq_true under]
    exact congrArg (· ^^ true) (Screen.pixel_blank _ _)
  have dark_before : t.v.get flagRegister = 0 := by
    have none : ¬∃ (px : Fin 64) (py : Fin 32),
        s.screen.pixel px py = true ∧ s.SpriteOver 0 1 2 px py := by
      rintro ⟨px, py, hlit, -⟩
      rw [show s.screen = .blank from rfl, Screen.pixel_blank] at hlit
      cases hlit
    rw [drawn.flag, decide_eq_false none]
    rfl
  have dark_again : u.v.get flagRegister = 1 := by
    rw [flag_again, decide_eq_true ⟨1, 0, under, Screen.pixel_blank 1 0⟩]
    rfl
  rw [machine_eq]
  exact ⟨by decide, by decide, by decide, rfl, decoded, result_eq, lit, dark_before,
    u, performed _ _, restored, dark_again⟩

end State

end Chip8
