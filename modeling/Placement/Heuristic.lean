import Placement.Optimizer

/-!
# The fallback heuristic

An optimizer for every kind of problem that always has an answer to a valid one. It never computes an
objective: assignments are random, routes go to the nearest node that is left, amounts are split
equally, and everything else stays in its given order.

Only assignments draw from its source.
-/

namespace Placement

/-- The state of the heuristic: where its source stands, and the seed to start over from. -/
structure Heuristic (σ : Type) where
  seed : Option UInt64
  source : σ

/-! ## Routes -/

namespace Route

/-- The bit that negative numbers have. -/
def signBit : Nat := 0x8000000000000000

/-- Where a number stands in the total order of all floats, in which `-0.0` comes before `0.0` and
what is not a number lies beyond the infinities. -/
def rank (x : Float) : Int :=
  let bits := x.toBits.toNat
  if bits < signBit then bits else (signBit : Int) - 1 - bits

/-- Of two candidates the nearer to `current`; the first of them if neither is nearer. -/
def nearer (distance : Matrix Float) (current a b : Nat) : Except Breach Nat := do
  let toA ← distance.read current a
  let toB ← distance.read current b
  pure (if rank toB < rank toA then b else a)

/-- The candidate nearest to `current`, and the first such one if there are several. Nothing is read
where there is nothing to compare. -/
def nearest? (distance : Matrix Float) (current : Nat) : List Nat → Except Breach (Option Nat)
  | [] => pure none
  | a :: rest => some <$> rest.foldlM (nearer distance current) a

/-- Goes on from `current` until `missing` more nodes are visited, always to the nearest of those that
are left, and no further than there are any. -/
def through (distance : Matrix Float) :
    (missing current : Nat) → (left : List Nat) → Except Breach (List Nat)
  | 0, _, _ => pure []
  | missing + 1, current, left => do
    match ← nearest? distance current left with
    | none => pure []
    | some next =>
      let visits ← through distance missing next (left.erase next)
      pure (next :: visits)

/-- The order of visits, starting at node zero. -/
def greedy (distance : Matrix Float) : Except Breach (List Nat) :=
  match List.range distance.rows with
  | [] => pure []
  | first :: left => do
    let visits ← through distance left.length first left
    pure (first :: visits)

end Route

namespace Heuristic

variable {σ : Type} [RandomSource σ]

/-- The heuristic with a seed, or with a source of its own if it has none. -/
def ofSeed (seed : Option UInt64) (unseeded : σ) : Heuristic σ :=
  { seed, source := (seed.map RandomSource.ofSeed).getD unseeded }

/-- Starts the source over, if there is a seed to start from. -/
def restart (h : Heuristic σ) : Heuristic σ := ofSeed h.seed h.source

/-- The sum of the values of a matrix, from left to right. It starts from the zero that leaves every
number as it is when added to it. -/
def total {α : Type} [Zero α] [Neg α] [Add α] (m : Matrix α) : α := m.values.foldl (· + ·) (-0)

/-- What each of `n` consumers gets when the values of a matrix are divided equally. -/
def share {α : Type} [Zero α] [Neg α] [Add α] [Div α] [Gauge α] (m : Matrix α) (n : Nat) : α :=
  total m / Gauge.ofNat n

/-- The solution that the heuristic proposes, and what it calls the way it was found. -/
def propose (p : Problem) : Draw σ (Solution × String) := do
  let n ←
    match p.dimension? with
    | some n => pure n
    | none => throw (.failure (.validation "problem has no dimension"))
  match p.kind with
  | .assignment =>
    let slots ← (Random.permutation n : StateM σ (Array Nat))
    pure (.permutation slots, "random_permutation")
  | .routing =>
    match p.get? DataKey.distance with
    | some distance =>
      let visits ← Draw.checked (Route.greedy distance)
      pure (.permutation visits.toArray, "greedy_route")
    | none => throw (.failure (.validation "missing 'distance' data"))
  | .allocation =>
    match p.get? DataKey.demand with
    | some demand =>
      let supply := (p.get? DataKey.capacity).getD demand
      pure (.allocation (Array.replicate n (share supply n)), "equal_split")
    | none => throw (.failure (.validation "missing 'demand' data"))
  | .topology | .adversarial | .multiObjective =>
    pure (.permutation (Array.range n), "identity")

def name : String := "heuristic_fallback"

/-- Answers a problem, or stops at what is wrong with it. -/
def attempt (p : Problem) : Draw σ Answer := do
  Draw.obtained (p.validateFor name ProblemKind.all).toExcept
  let (solution, strategy) ← propose p
  let result := ((Result.ofStatus .fallback).annotate Optimizer.solverKey (.text name)).annotate
    "strategy" (.text strategy)
  pure { result with solution := some solution, iterations := 1 }

def solve (h : Heuristic σ) (p : Problem) : Answer × Heuristic σ :=
  let (outcome, source) := (attempt p : Draw σ Answer).run h.source
  (Optimizer.guard name outcome, { h with source })

instance : Optimizer (Heuristic σ) where
  name _ := name
  kinds _ := ProblemKind.all
  prepare h := .ok h.restart
  solve := solve

end Heuristic

end Placement
