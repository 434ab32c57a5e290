/-
  The generator behind all shuffles.

  A generator is a seed and a place in the stream of 32-bit words that the seed starts.
  Places are counted modulo 2^68, the length of the stream, so a stored place of any size
  is brought back to one of them (`ofState`). Storing a generator and taking it back
  changes nothing (`ofState_state`).

  `below` draws a number under a bound. It rejects words from the incomplete last stretch,
  which would favour small results. It looks at one word after another, at most through
  the whole stream once, and a word has 32 bits. So lists are shuffled as they should be if
  they are shorter than 2^32; a longer one would take numbers of 64 bits.
-/
import CramSchool.Random.ChaCha

namespace CramSchool

/-- A generator as it is stored. -/
structure GeneratorState where
  seed : UInt64
  wordPos : BitVec 128
deriving DecidableEq

/-- A seed and the place of the next word. -/
structure Generator where
  seed : UInt64
  place : BitVec 68
deriving DecidableEq

namespace Generator

/-- At the start of the stream of a seed. -/
def ofSeed (seed : UInt64) : Generator := ⟨seed, 0⟩

def state (g : Generator) : GeneratorState := ⟨g.seed, g.place.setWidth 128⟩

def ofState (st : GeneratorState) : Generator := ⟨st.seed, st.wordPos.setWidth 68⟩

theorem ofState_state (g : Generator) : ofState g.state = g := by
  unfold ofState state
  simp

/-- The next word, and the generator behind it. -/
def next (g : Generator) : UInt32 × Generator :=
  (ChaCha.word (ChaCha.Key.ofSeed g.seed) g.place.toNat, { g with place := g.place + 1 })

/-- The highest low half that is accepted when a word is scaled to `n` results: the largest
    multiple of `n` by a power of two within 32 bits, less one. -/
def zone (n : Nat) : Nat := n <<< (31 - n.log2) - 1

/-- Looks at up to `words` words for one that is accepted. -/
def belowWithin (n : Nat) : (words : Nat) → Generator → Nat × Generator
  | 0, g => (0, g)
  | words + 1, g =>
    let (w, g') := g.next
    let scaled := w.toNat * n
    if scaled % 4294967296 ≤ zone n then (scaled / 4294967296, g') else belowWithin n words g'

/-- A number below `n`, each equally likely, for `n` from 1 to less than 2^32. A greater bound would
    ask for words of 64 bits, which are not drawn here. The answer is 0 as well if all words of the
    stream, which are 2^68, are rejected. -/
def below (g : Generator) (n : Nat) : Nat × Generator := belowWithin n (1 <<< 68) g

/-- Exchanges each of the places `i`, `i - 1`, ..., 1 with one at or before it. -/
def exchange {α : Type} : (i : Nat) → Array α → Generator → Array α × Generator
  | 0, xs, g => (xs, g)
  | i + 1, xs, g =>
    let (j, g') := g.below (i + 2)
    exchange i (xs.swapIfInBounds (i + 1) j) g'

/-- A list in random order, each order equally likely, and the generator behind it. The list is
    shorter than 2^32 (`below`). -/
def shuffle {α : Type} (g : Generator) (xs : List α) : List α × Generator :=
  let (ys, g') := exchange (xs.length - 1) xs.toArray g
  (ys.toList, g')

end Generator

end CramSchool
