/-
  The ChaCha stream with eight rounds and a 64-bit block counter.

  A block is four rows of four 32-bit words: the constants, the key in two rows, and the
  counter with the nonce, which is 0. A double round works on the columns, then on the
  diagonals. The block put out is the mixed block plus the block it started from.

  The key is made from a 64-bit seed by a linear congruential sequence whose states are
  permuted down to 32 bits.
-/

namespace CramSchool.ChaCha

/-- Four words side by side. -/
structure Row where
  a : UInt32
  b : UInt32
  c : UInt32
  d : UInt32
deriving DecidableEq

namespace Row

def zipWith (f : UInt32 → UInt32 → UInt32) (x y : Row) : Row :=
  ⟨f x.a y.a, f x.b y.b, f x.c y.c, f x.d y.d⟩

/-- Sum modulo 2^32, word by word. -/
def add (x y : Row) : Row := zipWith (· + ·) x y

/-- Exclusive or of `y` and `x`, each word rotated left by `k` bits, `0 < k < 32`. -/
def mix (k : UInt32) (x y : Row) : Row :=
  zipWith (fun u v => let w := u ^^^ v; (w <<< k) ||| (w >>> (32 - k))) x y

/-- The words moved one place to the left, the first to the end. -/
def turn (x : Row) : Row := ⟨x.b, x.c, x.d, x.a⟩

/-- The words in order. -/
def toList (x : Row) : List UInt32 := [x.a, x.b, x.c, x.d]

end Row

/-- Sixteen words in four rows. -/
structure Block where
  r0 : Row
  r1 : Row
  r2 : Row
  r3 : Row
deriving DecidableEq

namespace Block

/-- Quarter rounds on the four columns. -/
def columns (m : Block) : Block :=
  let a := m.r0.add m.r1
  let d := m.r3.mix 16 a
  let c := m.r2.add d
  let b := m.r1.mix 12 c
  let a := a.add b
  let d := d.mix 8 a
  let c := c.add d
  let b := b.mix 7 c
  ⟨a, b, c, d⟩

/-- Quarter rounds on the columns, then on the diagonals. -/
def doubleRound (m : Block) : Block :=
  let m := m.columns
  let m := columns ⟨m.r0, m.r1.turn, m.r2.turn.turn, m.r3.turn.turn.turn⟩
  ⟨m.r0, m.r1.turn.turn.turn, m.r2.turn.turn, m.r3.turn⟩

/-- Eight rounds. -/
def rounds (m : Block) : Block :=
  m.doubleRound.doubleRound.doubleRound.doubleRound

def add (m n : Block) : Block :=
  ⟨m.r0.add n.r0, m.r1.add n.r1, m.r2.add n.r2, m.r3.add n.r3⟩

/-- The words in order. -/
def toList (m : Block) : List UInt32 :=
  m.r0.toList ++ m.r1.toList ++ m.r2.toList ++ m.r3.toList

end Block

/-- Key of a stream. -/
structure Key where
  low : Row
  high : Row
deriving DecidableEq

/-- The text `expand 32-byte k`, in words. -/
def constants : Row := ⟨0x61707865, 0x3320646e, 0x79622d32, 0x6b206574⟩

/-- Block number `counter` of the stream of a key. -/
def block (key : Key) (counter : UInt64) : Block :=
  let start : Block :=
    ⟨constants, key.low, key.high, ⟨counter.toUInt32, (counter >>> 32).toUInt32, 0, 0⟩⟩
  start.rounds.add start

/-- Word number `i` of the stream of a key, sixteen words to a block. -/
def word (key : Key) (i : Nat) : UInt32 :=
  (block key (UInt64.ofNat (i / 16))).toList.getD (i % 16) 0

namespace Seed

/-- Next state of the sequence that keys are made from. -/
def next (state : UInt64) : UInt64 := state * 6364136223846793005 + 11634580027462260723

/-- Word taken from a state: high bits folded onto lower ones, turned right by the five
    highest bits. -/
def output (state : UInt64) : UInt32 :=
  let x := (((state >>> 18) ^^^ state) >>> 27).toUInt32
  let k := (state >>> 59).toUInt32
  (x >>> k) ||| (x <<< ((32 - k) % 32))

/-- Four words in a row, and the state behind them. -/
def row (state : UInt64) : Row × UInt64 :=
  let s1 := next state
  let s2 := next s1
  let s3 := next s2
  let s4 := next s3
  (⟨output s1, output s2, output s3, output s4⟩, s4)

end Seed

/-- Key of the stream that a seed starts. -/
def Key.ofSeed (seed : UInt64) : Key :=
  let (low, state) := Seed.row seed
  ⟨low, (Seed.row state).1⟩

end CramSchool.ChaCha
