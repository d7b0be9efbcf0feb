import Placement.Assignment.Instance
import Placement.Permutation
import Placement.Search.Deadline
import Placement.Search.Tournament

/-!
# Genetic search

Generations of assignments. Each generation is evaluated as a whole and then replaced by children:
two tournaments choose the parents, the order crossover makes the child, and sometimes two of its
entries are exchanged. The best assignment of all generations is remembered.

A generation is a vector, so its size is the same from the first to the last.
-/

namespace Placement

structure Genetic where
  maxIterations : Nat
  maxPopulation : Nat
  mutationRate : Float
  tournament : Tournament

namespace Genetic

def ofParameters (maxIterations maxPopulation : Nat) (mutationRate : Float) (tournamentSize : Nat) :
    Except ParameterFault Genetic := do
  if maxIterations = 0 then throw .noIterations
  if maxPopulation < 2 then throw .populationSize
  if !isRate mutationRate then throw .mutationRate
  let tournament ← Tournament.ofSize tournamentSize
  pure { maxIterations, maxPopulation, mutationRate, tournament := tournament.lowerWins }

/-- How large a generation is for `n` slots: twice their number, at most the bound that was set, and
never below two. -/
def populationSize (g : Genetic) (n : Nat) : Nat := max (min g.maxPopulation (2 * n)) 2

theorem two_le_populationSize (g : Genetic) (n : Nat) : 2 ≤ g.populationSize n := Nat.le_max_right ..

/-- How many generations of a given size the budget allows: at least one. -/
def generations (g : Genetic) (size : Nat) : Except Breach Nat :=
  if size = 0 then .error (.saying "attempt to divide by zero")
  else .ok (max (g.maxIterations / size) 1)

structure Brood (size : Nat) where
  population : Vector (Array Nat) size
  best : Array Nat
  bestCost : Float
  evaluations : Nat
  completed : Nat

/-- The cost before anything was evaluated. -/
def unevaluated : Float := Float.ofBits 0x7FF0000000000000

/-- The better of the best so far and an individual, which has to be strictly better to take over. -/
def better (best individual : Array Nat × Float) : Array Nat × Float :=
  if individual.2 < best.2 then individual else best

variable {size : Nat}

def evaluate (t : Instance Float) (population : Vector (Array Nat) size) :
    Except Breach (Vector Float size) := population.mapM t.objective?

variable {σ : Type} [RandomSource σ]

def child (g : Genetic) (population : Vector (Array Nat) size) (objectives : Vector Float size) :
    Draw σ (Array Nat) := do
  let a ← g.tournament.run objectives
  let b ← g.tournament.run objectives
  let c ← Crossover.random (population.get a) (population.get b)
  let draw ← (Random.unit : StateM σ Float)
  if draw < g.mutationRate then swapMutation c else pure c

/-- One generation: everyone is evaluated, and children take their place. -/
def generation (g : Genetic) (t : Instance Float) (b : Brood size) : Draw σ (Brood size) := do
  let objectives ← Draw.checked (evaluate t b.population)
  let (best, bestCost) := (b.population.zip objectives).foldl better (b.best, b.bestCost)
  let population ← Draw.times (g.child b.population objectives) size
  pure
    { population, best, bestCost
      evaluations := b.evaluations + size
      completed := b.completed + 1 }

/-- Goes on for at most `remaining` generations, and says whether the deadline cut the search
short. -/
def breed (g : Genetic) (t : Instance Float) (deadline : Deadline) :
    (remaining : Nat) → Brood size → Draw σ (Brood size × Bool)
  | 0, b => pure (b, false)
  | remaining + 1, b =>
    if deadline.expired b.completed then pure (b, true)
    else do
      let b ← g.generation t b
      breed g t deadline remaining b

/-- Searches from a random generation. If no individual had a finite objective, or none was evaluated
at all, the best is evaluated once more at the end. -/
def run (g : Genetic) (t : Instance Float) (deadline : Deadline) : Draw σ (Finding Float) := do
  let size := g.populationSize t.side
  let generations ← Draw.checked (g.generations size)
  let population ← Draw.times (liftM (Random.permutation t.side : StateM σ (Array Nat))) size
  have : 0 < size := Nat.lt_of_lt_of_le Nat.two_pos (g.two_le_populationSize t.side)
  let start : Brood size :=
    { population, best := population[0], bestCost := unevaluated, evaluations := 0, completed := 0 }
  let (b, timedOut) ← g.breed t deadline generations start
  let (objective, evaluations) ←
    if b.bestCost.isFinite then pure (b.bestCost, b.evaluations)
    else do
      let objective ← Draw.checked (t.objective? b.best)
      pure (objective, b.evaluations + 1)
  pure
    { best := b.best
      objective
      iterations := b.completed
      timedOut
      annotations :=
        ((∅ : Annotations).insert "population_size" (.ofNat size)
          |>.insert "generations" (.ofNat b.completed)
          |>.insert "evaluations" (.ofNat evaluations)) }

end Genetic

end Placement
