import Placement.Random.Source

/-!
# Permutations

Orders of `0, …, n - 1`, as the list of their entries: the slot is the position, the unit in it the
entry. This module recognises them and holds the two operators that breed new ones, the order
crossover of two parents and the exchange of two random entries.

The crossover keeps a slice of the first parent in place and fills the other slots, from left to
right, with the entries of the second that the slice lacks, in their order. Both parents are expected
to be permutations; what happens otherwise is fixed all the same, so that misuse shows.
-/

namespace Placement

/-! ## Recognition -/

/-- Whether the entries are all below the size of the table and none is marked or comes twice. -/
def allFresh : List Nat → (seen : Array Bool) → Bool
  | [], _ => true
  | v :: vs, seen =>
    if h : v < seen.size then
      if seen[v] then false else allFresh vs (seen.set v true h)
    else false

/-- Whether the entries are `0, …, n - 1`, each once. -/
def isPermutation (values : Array Nat) (n : Nat) : Bool :=
  values.size == n && allFresh values.toList (Array.replicate n false)

/-! ## Order crossover -/

namespace Crossover

/-- Stands in a slot for which no entry was left. -/
def unfilled : Nat := UInt64.size - 1

/-- Copies the entry of `a` in slot `i` to the child and marks it. -/
def keep (a : Array Nat) (made : Array Nat × Array Bool) (i : Nat) :
    Except Breach (Array Nat × Array Bool) :=
  if hi : i < a.size then
    if hv : a[i] < made.2.size then
      .ok (made.1.setIfInBounds i a[i], made.2.set a[i] true hv)
    else .error .outOfBounds
  else .error .outOfBounds

/-- The first entry that is not marked, with the entries behind it. -/
def pull (placed : Array Bool) : List Nat → Except Breach (Option (Nat × List Nat))
  | [] => .ok none
  | v :: vs =>
    if h : v < placed.size then
      if placed[v] then pull placed vs else .ok (some (v, vs))
    else .error .outOfBounds

/-- Gives slot `i` of the child the next entry that is not marked. A slot of the slice has its entry
already, and if no entry is left the slot stays as it is. -/
def fillSlot (placed : Array Bool) (start stop : Nat) (made : Array Nat × List Nat) (i : Nat) :
    Except Breach (Array Nat × List Nat) := do
  if start ≤ i ∧ i < stop then return made
  match ← pull placed made.2 with
  | some (v, rest) => return (made.1.setIfInBounds i v, rest)
  | none => return (made.1, [])

/-- The child that has the entries of `a` in the slots from `start` up to `stop`, and the remaining
entries of `b` around them. -/
def withSlice (a b : Array Nat) (start stop : Nat) : Except Breach (Array Nat) := do
  let n := a.size
  if b.size ≠ n then throw (.saying "parents must have equal length")
  if ¬(start ≤ stop ∧ stop ≤ n) then throw (.saying "invalid crossover slice")
  let (child, placed) ← (List.range' start (stop - start)).foldlM (keep a)
    (Array.replicate n unfilled, Array.replicate n false)
  let (child, _) ← (List.range n).foldlM (fillSlot placed start stop) (child, b.toList)
  return child

variable {σ : Type} [RandomSource σ]

/-- The child for a random slice of at least one slot. A parent of fewer than two entries is its own
child. -/
def random (a b : Array Nat) : Draw σ (Array Nat) :=
  if a.size < 2 then pure a
  else do
    let i ← Draw.index a.size
    let j ← Draw.index a.size
    Draw.checked (withSlice a b (min i.val j.val) (max i.val j.val + 1))

end Crossover

/-! ## Mutation -/

variable {σ : Type} [RandomSource σ]

/-- Exchanges the entries of two different random slots. With fewer than two there is nothing to
exchange and nothing is drawn. -/
def swapMutation (p : Array Nat) : Draw σ (Array Nat) :=
  if p.size < 2 then pure p
  else do
    let (i, j) ← Draw.distinctPair p.size
    pure (p.swap i j)

end Placement
