import Placement.Assignment.Instance
import Placement.Random.Source
import Placement.Search.Deadline
import Placement.Search.Parameter

/-!
# Simulated annealing

A walk over assignments. Each step proposes to exchange the units of two random slots and takes the
exchange if the objective does not rise; if it rises, a random draw decides, and the cooler the walk
has become the less likely the step is. The best assignment seen is remembered apart from the current
one.

The walk is written for any numbers, and for any rule that decides about rising steps; `metropolis`
is the rule that is used. Cooling is independent of both, so the length of a walk is settled by its
parameters alone.
-/

namespace Placement

structure Annealing where
  maxIterations : Nat
  temperature : Float
  cooling : Float
  /-- The walk ends when the temperature falls below this. -/
  floor : Float

namespace Annealing

/-- Admits parameters. A floor below zero, or one that is not a number, counts as zero. -/
def ofParameters (maxIterations : Nat) (temperature cooling floor : Float) :
    Except ParameterFault Annealing :=
  if maxIterations = 0 then .error .noIterations
  else if temperature ≤ 0 then .error .temperature
  else if !isCooling cooling then .error .cooling
  else .ok { maxIterations, temperature, cooling, floor := if 0 ≤ floor then floor else 0 }

/-- Takes a rise with the probability `exp (-delta / temperature)`. -/
def metropolis (delta temperature draw : Float) : Bool := draw < Float.exp (-delta / temperature)

structure Walk (α : Type) where
  current : Array Nat
  cost : α
  best : Array Nat
  bestCost : α
  temperature : Float
  iterations : Nat
  /-- How many proposals were taken. -/
  accepted : Nat
  /-- How many of them lowered the objective. -/
  improving : Nat

namespace Walk

variable {α : Type}

/-- A walk before its first step. -/
def start (p : Array Nat) (cost : α) (temperature : Float) : Walk α :=
  { current := p, cost, best := p, bestCost := cost, temperature, iterations := 0, accepted := 0,
    improving := 0 }

/-- Exchanges two slots, which changes the objective by `delta`. -/
@[specialize] def take [Zero α] [Add α] [LT α] [DecidableLT α] (w : Walk α) (r s : Nat) (delta : α) :
    Walk α :=
  let current := w.current.swapIfInBounds r s
  let cost := w.cost + delta
  let better := cost < w.bestCost
  { w with
    current, cost
    best := if better then current else w.best
    bestCost := if better then cost else w.bestCost
    accepted := w.accepted + 1
    improving := if delta < 0 then w.improving + 1 else w.improving }

/-- Ends a step. -/
def cool (w : Walk α) (rate : Float) : Walk α :=
  { w with temperature := w.temperature * rate, iterations := w.iterations + 1 }

end Walk

variable {σ α : Type} [RandomSource σ]
variable [Zero α] [Add α] [Sub α] [Mul α] [LT α] [DecidableLT α] [LE α] [DecidableLE α]

/-- Whether a change is taken. Nothing is drawn for one that does not raise the objective. -/
@[specialize] def decideOn (rule : α → Float → Float → Bool) (delta : α) (temperature : Float) :
    StateM σ Bool :=
  if delta ≤ 0 then pure true
  else do
    let draw ← Random.unit
    pure (rule delta temperature draw)

@[specialize] def step (t : Instance α) (rule : α → Float → Float → Bool) (rate : Float)
    (w : Walk α) : Draw σ (Walk α) := do
  let (r, s) ← Draw.distinctPair t.side
  let delta ← Draw.checked (t.swapDelta? w.current r s)
  let accept ← (decideOn rule delta w.temperature : StateM σ Bool)
  pure ((if accept then w.take r s delta else w).cool rate)

/-- Walks on for at most `remaining` steps, and says whether the deadline cut the walk short. -/
@[specialize] def walk (t : Instance α) (rule : α → Float → Float → Bool) (rate floor : Float)
    (deadline : Deadline) : (remaining : Nat) → Walk α → Draw σ (Walk α × Bool)
  | 0, w => pure (w, false)
  | remaining + 1, w =>
    if floor ≤ w.temperature then
      if deadline.expired w.iterations then pure (w, true)
      else do
        let w ← step t rule rate w
        walk t rule rate floor deadline remaining w
    else pure (w, false)

/-- Walks from a random assignment. With fewer than two slots there is nothing to exchange. The best
assignment is evaluated anew at the end, free of what rounding the changes has piled up. -/
@[specialize] def run (a : Annealing) (t : Instance α) (rule : α → Float → Float → Bool)
    (deadline : Deadline) : Draw σ (Finding α) := do
  let p ← (Random.permutation t.side : StateM σ (Array Nat))
  let cost ← Draw.checked (t.objective? p)
  let steps := if 2 ≤ t.side then a.maxIterations else 0
  let (w, timedOut) ←
    walk t rule a.cooling a.floor deadline steps (Walk.start p cost a.temperature)
  let objective ← Draw.checked (t.objective? w.best)
  pure
    { best := w.best
      objective
      iterations := w.iterations
      timedOut
      annotations :=
        ((∅ : Annotations).insert "accepted_moves" (.ofNat w.accepted)
          |>.insert "improving_moves" (.ofNat w.improving)
          |>.insert "final_temperature" (.number w.temperature)) }

end Annealing

end Placement
