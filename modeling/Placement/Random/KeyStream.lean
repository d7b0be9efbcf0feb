import Placement.Cipher.Square
import Placement.Random.Source

/-!
# The key stream

The random source that every seeded run uses: the stream cipher ChaCha with twelve rounds, read as a
sequence of words. A block is a function of the key and of its number alone; the stream consists of
the blocks in order. The key is spread from a 64-bit seed by a linear congruential generator with a
permuted output.
-/

namespace Placement

/-- A position in the stream of one key: the block under way, how many of its words are used up, and
the number of the block behind it. -/
structure KeyStream where
  key : Vector UInt32 8
  following : UInt64
  block : Square
  used : Nat
deriving DecidableEq, Repr

namespace KeyStream

@[inline] def rotate (word count : UInt32) : UInt32 :=
  word <<< count ||| word >>> (32 - count)

/-- Mixes four words into each other. -/
@[inline] def quarter (q : Quad) : Quad :=
  let a := q.a + q.b
  let d := rotate (q.d ^^^ a) 16
  let c := q.c + d
  let b := rotate (q.b ^^^ c) 12
  let a := a + b
  let d := rotate (d ^^^ a) 8
  let c := c + d
  let b := rotate (b ^^^ c) 7
  ⟨a, b, c, d⟩

/-- Two rounds in the count of the cipher, which takes columns and diagonals for one each. -/
def doubleRound (s : Square) : Square := s.round fun _ => quarter

/-- The four words that every block starts with. -/
def constants : Vector UInt32 4 := #v[0x61707865, 0x3320646e, 0x79622d32, 0x6b206574]

/-- The words that a block starts from: the constants, the key, the number of the block as two
words, and two words that are zero. -/
def initial (key : Vector UInt32 8) (number : UInt64) : Square :=
  constants ++ key ++ #v[number.toUInt32, (number >>> 32).toUInt32, 0, 0]

/-- The block with the given number: six double rounds, and the initial words added at the end. -/
def blockOf (key : Vector UInt32 8) (number : UInt64) : Square :=
  let start := initial key number
  Vector.zipWith (· + ·) (Nat.repeat doubleRound 6 start) start

/-- One step of the generator that spreads a seed. -/
def spreadStep (state : UInt64) : UInt64 :=
  state * 6364136223846793005 + 11634580027462260723

/-- The word put out at a state: bits from its middle, rotated to the right by its top five. -/
def spreadWord (state : UInt64) : UInt32 :=
  let mixed := ((state >>> 18 ^^^ state) >>> 27).toUInt32
  let count := (state >>> 59).toUInt32
  mixed >>> count ||| mixed <<< ((32 - count) % 32)

/-- The first `n` words put out after `state`. -/
def spread (state : UInt64) : (n : Nat) → Vector UInt32 n
  | 0 => #v[]
  | n + 1 =>
    let state := spreadStep state
    (#v[spreadWord state] ++ spread state n).cast (Nat.add_comm 1 n)

def ofKey (key : Vector UInt32 8) : KeyStream :=
  { key, following := 1, block := blockOf key 0, used := 0 }

def next (s : KeyStream) : UInt32 × KeyStream :=
  if h : s.used < 16 then
    (s.block[s.used], { s with used := s.used + 1 })
  else
    let block := blockOf s.key s.following
    (block[0], { s with following := s.following + 1, block, used := 1 })

/-- A stream is started by spreading the seed over the key. -/
instance : RandomSource KeyStream where
  ofSeed seed := ofKey (spread seed 8)
  next := next

end KeyStream

end Placement
