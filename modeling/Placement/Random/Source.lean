import Placement.Failure

/-!
# Random draws

All randomness comes from a `RandomSource`: a state that yields one 32-bit word after another and can
be started from a seed. Every draw is a function of that state, so a run is determined by where its
source starts, and what is true for all sources is true however the words fall.

A whole number below a bound is drawn by scaling a word to the bound and refusing the few words that
would make some results likelier than others. The result has type `Fin bound`, so its range does not
depend on which words are refused, nor on how many.
-/

namespace Placement

/-- A state that yields random words. -/
class RandomSource (σ : Type) where
  /-- The state that belongs to a seed. -/
  ofSeed : UInt64 → σ
  /-- The next word and the state behind it. -/
  next : σ → UInt32 × σ

namespace Random

variable {σ : Type} [RandomSource σ]

def word32 : StateM σ UInt32 := fun s => RandomSource.next s

/-- The next two words as one, the first being the low half. -/
def word64 : StateM σ UInt64 := do
  let low ← word32
  let high ← word32
  pure (low.toUInt64 ||| high.toUInt64 <<< 32)

/-- A number from `[0, 1)`: the high 53 bits of a word of 64, counted in units of `2 ^ (-53)`. -/
def unit : StateM σ Float := do
  let word ← word64
  pure ((word >>> 11).toFloat / 9007199254740992)

/-! ## Whole numbers below a bound -/

/-- The place of `word` among all words of its width, carried over to `0, …, bound - 1`: the high half
of the product of both. -/
def scale {width bound : Nat} (word : BitVec width) (hb : 0 < bound) : Fin bound :=
  ⟨(word.toNat * bound) >>> width, by
    rw [Nat.shiftRight_eq_div_pow]
    exact Nat.div_lt_of_lt_mul (Nat.mul_lt_mul_of_pos_right word.isLt hb)⟩

/-- Words for which the low half of the product exceeds this are refused: the greatest multiple of
`bound` by a power of two that still fits into `width` bits, less one. -/
def lastAccepted (width bound : Nat) : Nat := bound <<< (width - 1 - bound.log2) - 1

/-- Draws words until one is accepted. At least half of all words are, so running out of `tries` does
not happen in practice; the word drawn last is then taken as it is. -/
@[specialize] def below {width bound : Nat} (draw : StateM σ (BitVec width)) (hb : 0 < bound) :
    Nat → StateM σ (Fin bound)
  | 0 => do
    let word ← draw
    pure (scale word hb)
  | tries + 1 => do
    let word ← draw
    if (word * BitVec.ofNat width bound).toNat ≤ lastAccepted width bound then pure (scale word hb)
    else below draw hb tries

/-- How many words may be refused in one draw. -/
def tries : Nat := 1000

/-- A number below `bound`, from words of 64 bits. -/
def below64 {bound : Nat} (hb : 0 < bound) : StateM σ (Fin bound) :=
  below (UInt64.toBitVec <$> word64) hb tries

/-- A number below `bound`, from words of 32 bits. -/
def below32 {bound : Nat} (hb : 0 < bound) : StateM σ (Fin bound) :=
  below (UInt32.toBitVec <$> word32) hb tries

/-! ## Permutations -/

/-- The slot that the entry in slot `last` is exchanged with: any up to `last` itself. -/
def partner (last : Nat) : StateM σ (Fin (last + 1)) :=
  if last + 1 < UInt32.size then below32 (Nat.succ_pos last) else below64 (Nat.succ_pos last)

/-- Exchanges slots `last, …, 1`, in this order, each with a random one that is not behind it. -/
def shuffleFrom : Nat → Array Nat → StateM σ (Array Nat)
  | 0, values => pure values
  | last + 1, values => do
    let other ← partner (last + 1)
    shuffleFrom last (values.swapIfInBounds (last + 1) other)

def permutation (n : Nat) : StateM σ (Array Nat) := shuffleFrom (n - 1) (Array.range n)

end Random

/-! ## Draws with a precondition -/

/-- A computation that draws from a source and may stop short. What was drawn before it stopped stays
drawn. -/
abbrev Draw (σ : Type) : Type → Type := ExceptT Abort (StateM σ)

namespace Draw

variable {σ α : Type}

/-- Stops at a broken precondition. -/
def breach (cause : Breach) : Draw σ α := throw (.breach cause)

/-- Goes on with a checked value, or stops where its check found a broken precondition. -/
def checked : Except Breach α → Draw σ α
  | .ok a => pure a
  | .error cause => breach cause

/-- Goes on with a value, or stops at a failure. -/
def obtained : Except Failure α → Draw σ α
  | .ok a => pure a
  | .error cause => throw (.failure cause)

@[inline] def times (draw : Draw σ α) (n : Nat) : Draw σ (Vector α n) := Vector.ofFnM fun _ => draw

theorem times_succ (draw : Draw σ α) (n : Nat) :
    times draw (n + 1) =
      (do let values ← times draw n
          let value ← draw
          pure (values.push value)) := Vector.ofFnM_succ

variable [RandomSource σ]

/-- An index below `bound`. Without any index to choose from, nothing is drawn. -/
def index (bound : Nat) : Draw σ (Fin bound) :=
  if hb : 0 < bound then (Random.below64 hb : StateM σ (Fin bound)) else breach .emptyRange

/-- A whole number from `low` up to but not including `high`. -/
def between (low high : Int) : Draw σ Int := do
  let offset ← index (high - low).toNat
  pure (low + offset.val)

/-- The index that stands at place `k` among those other than `first`. -/
def skipping {bound : Nat} (first : Fin bound) (k : Fin (bound - 1)) : Fin bound :=
  if first ≤ k.val then ⟨k + 1, by omega⟩ else ⟨k, by omega⟩

theorem skipping_ne {bound : Nat} (first : Fin bound) (k : Fin (bound - 1)) :
    skipping first k ≠ first := by
  intro h
  have := congrArg Fin.val h
  unfold skipping at this
  split at this <;> simp only at this <;> omega

/-- Two different indices below `bound`: the second is one of the others. -/
def distinctPair (bound : Nat) : Draw σ (Fin bound × Fin bound) := do
  let first ← index bound
  let k ← index (bound - 1)
  pure (first, skipping first k)

end Draw

end Placement
