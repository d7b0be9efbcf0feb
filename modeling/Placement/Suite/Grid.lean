import Placement.Digest.Blake3
import Placement.Matrix
import Placement.Random.KeyStream

/-!
# Grid instances

Instances made up from a name, for when no data are at hand. The slots stand on a square grid, row by
row, and distances are counted in steps along the grid. The flow between two different units is a
random number below ten, the same in both directions; the name alone decides the draws.

Both matrices start out with zeros and are filled in pair by pair, each value in both of its cells. The
width of the grid is computed in floats.
-/

namespace Placement

/-- Stores a value for both directions between `i` and `j`. -/
def Matrix.storeBoth {α : Type} (m : Matrix α) (i j : Nat) (a : α) : Except Breach (Matrix α) := do
  let m ← m.store i j a
  m.store j i a

namespace Grid

/-- The seed that belongs to a name: the first eight bytes of its digest, the first being the
lowest. -/
def seedOf (name : String) : UInt64 :=
  let digest := Digest.digest name.toUTF8.toList
  digest[0].toUInt64 ||| digest[1].toUInt64 <<< 32

/-! ## Distances -/

/-- The least whole number that is not below `x`, where `x` is not negative and below `2 ^ 64`. -/
def ceil (x : Float) : Float :=
  let whole := x.toUInt64.toNat
  if Float.ofNat whole < x then Float.ofNat (whole + 1) else Float.ofNat whole

/-- The width of a grid for `n` slots: the root of their number, rounded up, and at least one. -/
def width (n : Nat) : Nat := (max (ceil (Float.ofNat n).sqrt) 1).toUInt64.toNat

/-- The distance of two numbers. -/
def apart (a b : Nat) : Nat := (a - b) + (b - a)

/-- The steps between slots `i` and `j` of a grid of the given width. -/
def steps (width i j : Nat) : Nat := apart (i % width) (j % width) + apart (i / width) (j / width)

/-! ## Filling in -/

/-- Distances and flows, as far as they are filled in. -/
abbrev Tables : Type := Matrix Float × Matrix Float

variable {σ : Type} [RandomSource σ]

/-- Fills in what belongs to `i` and `j`. -/
def fillPair (width i : Nat) (t : Tables) (j : Nat) : Draw σ Tables := do
  let distance ← Draw.checked (t.1.storeBoth i j (Float.ofNat (steps width i j)))
  let drawn ← Draw.between 0 10
  let flow ← Draw.checked (t.2.storeBoth i j (Float.ofInt drawn))
  pure (distance, flow)

/-- Fills in what belongs to `i` and any number behind it. -/
def fillRow (width n : Nat) (t : Tables) (i : Nat) : Draw σ Tables :=
  (List.range' (i + 1) (n - (i + 1))).foldlM (fillPair width i) t

/-- Distances and flows of `n` slots and units. -/
def tables (n : Nat) : Draw σ Tables := do
  let distance ← Draw.checked (Matrix.fill n n 0)
  let flow ← Draw.checked (Matrix.fill n n 0)
  (List.range n).foldlM (fillRow (width n) n) (distance, flow)

/-- The instance with this name and size. -/
def matrices (name : String) (n : Nat) : Except Abort (Matrix Float × Matrix Float) :=
  ((tables n).run (RandomSource.ofSeed (seedOf name) : KeyStream)).1

end Grid

end Placement
