import Placement.Problem.Validation
import Placement.Result

/-!
# Optimizers

What every optimizer offers. An optimizer is the state it keeps between solves: solving answers a
problem and says what the state has become. An optimizer always answers; `Optimizer.guard` turns
whatever stopped a solve into a failed result.
-/

namespace Placement

/-- A rough size class of problems. -/
inductive Complexity where
  | low
  | medium
  | high
  | veryHigh
deriving DecidableEq, Repr

namespace Complexity

def ofDimension (n : Nat) : Complexity :=
  if n ≤ 10 then low else if n ≤ 30 then medium else if n ≤ 100 then high else veryHigh

def name : Complexity → String
  | low => "low"
  | medium => "medium"
  | high => "high"
  | veryHigh => "very_high"

end Complexity

/-- Which objectives are better. -/
inductive Sense where
  | minimize
  | maximize
deriving DecidableEq, Repr

def Sense.name : Sense → String
  | minimize => "minimize"
  | maximize => "maximize"

/-- The complexity of a problem; one without a dimension counts as empty. -/
def Problem.complexity (p : Problem) : Complexity := .ofDimension (p.dimension?.getD 0)

/-- The verdict of an optimizer with this name on a problem: it must be of a kind that the optimizer
takes, and then valid. -/
def Problem.validateFor (p : Problem) (name : String) (kinds : List ProblemKind) : Verdict :=
  if kinds.contains p.kind then p.validate
  else .invalid (name ++ " does not support " ++ p.kind.name ++ " problems")

/-- States of an optimizer. -/
class Optimizer (ω : Type) where
  /-- A short name that stays the same. -/
  name : ω → String
  /-- The kinds of problems it takes, in the order in which kinds are listed. -/
  kinds : ω → List ProblemKind
  /-- Makes it ready. -/
  prepare : ω → Except Failure ω := .ok
  sense : ω → Sense := fun _ => .minimize
  complexity : ω → Problem → Complexity := fun _ p => p.complexity
  validate : ω → Problem → Verdict := fun o p => p.validateFor (name o) (kinds o)
  /-- Answers a problem. -/
  solve : ω → Problem → Answer × ω

namespace Optimizer

/-- The name of the annotation that says which solver a result comes from. -/
def solverKey : String := "solver"

/-- The result of a solve, however it ended: what stopped it becomes the reason of a failed result
that names the solver. -/
def guard (solver : String) : Except Abort Answer → Answer
  | .ok result => result
  | .error cause => (Result.failed cause.toFailure.message).annotate solverKey (.text solver)

end Optimizer

end Placement
