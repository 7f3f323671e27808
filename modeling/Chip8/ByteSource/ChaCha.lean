/-!
# A key stream

The stream cipher ChaCha with twelve rounds, as a generator of bytes: the low eight bits of each
word of the key stream. A key is spread out from a sixty-four-bit seed by a linear congruential
generator whose output is permuted.

* `quarterRound`, `doubleRound`, `block`: the cipher's block function.
* `keystreamByte`: byte `k` of the stream under a key.
* `Key.ofSeed`: the key that a seed stands for.
-/

namespace Chip8.ChaCha

/-- A key: eight words. -/
abbrev Key := Vector UInt32 8

/-- The sixteen words that a block is made of. -/
abbrev Block := Vector UInt32 16

/-- Rotates a word towards its more significant end. -/
def rotateLeft (w : UInt32) (count : UInt32) : UInt32 :=
  (w <<< count) ||| (w >>> (32 - count))

/-- Mixes four of the sixteen words. -/
def quarterRound (s : Block) (a b c d : Fin 16) : Block :=
  let wa := s[a] + s[b]
  let wd := rotateLeft (s[d] ^^^ wa) 16
  let wc := s[c] + wd
  let wb := rotateLeft (s[b] ^^^ wc) 12
  let wa := wa + wb
  let wd := rotateLeft (wd ^^^ wa) 8
  let wc := wc + wd
  let wb := rotateLeft (wb ^^^ wc) 7
  (((s.set a wa).set b wb).set c wc).set d wd

/-- One round down the columns of the four-by-four square of words and one down its diagonals. -/
def doubleRound (s : Block) : Block :=
  [(0, 4, 8, 12), (1, 5, 9, 13), (2, 6, 10, 14), (3, 7, 11, 15),
    (0, 5, 10, 15), (1, 6, 11, 12), (2, 7, 8, 13), (3, 4, 9, 14)].foldl
    (fun s (a, b, c, d) => quarterRound s a b c d) s

/-- The words before the rounds of block `counter`: four constants, the key, the counter with its
    low word first, and two zeros. -/
def start (key : Key) (counter : UInt64) : Block :=
  #v[0x61707865, 0x3320646E, 0x79622D32, 0x6B206574,
    key[0], key[1], key[2], key[3], key[4], key[5], key[6], key[7],
    counter.toUInt32, (counter >>> 32).toUInt32, 0, 0]

/-- Block `counter` of the key stream: twelve rounds, with the words before them added. -/
def block (key : Key) (counter : UInt64) : Block :=
  let s := start key counter
  Vector.zipWith (· + ·) ((List.range 6).foldl (fun t _ => doubleRound t) s) s

/-- Byte `k` of the stream: the low eight bits of its word `k`. -/
def keystreamByte (key : Key) (k : Nat) : UInt8 :=
  (block key (UInt64.ofNat (k / 16)))[Fin.ofNat 16 k].toUInt8

/-! ## Keys from seeds -/

/-- Moves the seed on by one step of the congruential generator. -/
def nextSeed (seed : UInt64) : UInt64 := seed * 6364136223846793005 + 11634580027462260723

/-- The word that a state of the generator gives out: thirty-two of its bits, folded and rotated
    by its top five. -/
def seedWord (seed : UInt64) : UInt32 :=
  let folded := (((seed >>> 18) ^^^ seed) >>> 27).toUInt32
  let turn := (seed >>> 59).toUInt32
  (folded >>> turn) ||| (folded <<< (32 - turn))

/-- The next `count` words of the generator. -/
def seedWords (seed : UInt64) : Nat → List UInt32
  | 0 => []
  | count + 1 => seedWord (nextSeed seed) :: seedWords (nextSeed seed) count

/-- The key of a seed: the generator's first eight words. -/
def Key.ofSeed (seed : UInt64) : Key :=
  Vector.ofFn fun k => (seedWords seed 8)[k.val]?.getD 0

end Chip8.ChaCha
