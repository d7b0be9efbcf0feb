import Placement.Assignment.Solver
import Placement.Heuristic

/-!
# Engines

The optimizers that this library has, as one type of optimizer. An `EngineKind` names one of them and
builds it from settings.
-/

namespace Placement

/-- What engines are given by the world around them: the clock, and the source for whatever has no
seed. -/
structure Surroundings (σ : Type) where
  clock : Clock
  source : σ

inductive Engine (σ : Type) where
  | heuristic (state : Heuristic σ)
  | assignment (state : AssignmentSolver σ)

inductive EngineKind where
  | heuristic
  | assignment
deriving DecidableEq, Repr

namespace Engine

variable {σ : Type} [RandomSource σ]

instance : Optimizer (Engine σ) where
  name
    | heuristic h => Optimizer.name h
    | assignment s => Optimizer.name s
  kinds
    | heuristic h => Optimizer.kinds h
    | assignment s => Optimizer.kinds s
  prepare
    | heuristic h => (Optimizer.prepare h).map heuristic
    | assignment s => (Optimizer.prepare s).map assignment
  solve
    | heuristic h, p => let (answer, h) := Optimizer.solve h p; (answer, heuristic h)
    | assignment s, p => let (answer, s) := Optimizer.solve s p; (answer, assignment s)

end Engine

namespace EngineKind

/-- Every kind of engine, in the order in which they are listed. -/
def all : List EngineKind := [heuristic, assignment]

def name : EngineKind → String
  | heuristic => Heuristic.name
  | assignment => AssignmentSolver.name

def isAvailable : EngineKind → Bool
  | heuristic => true
  | assignment => true

variable {σ : Type} [RandomSource σ]

/-- Builds an optimizer. The heuristic takes any settings, because it only looks at the seed. -/
def construct (kind : EngineKind) (settings : Settings) (around : Surroundings σ) :
    Except Failure (Engine σ) :=
  match kind with
  | heuristic => .ok (.heuristic (Heuristic.ofSeed settings.seed around.source))
  | assignment =>
    match AssignmentSolver.ofSettings settings around.clock around.source with
    | .ok s => .ok (.assignment s)
    | .error cause => .error (.construction (AssignmentSolver.name ++ ": " ++ cause.message))

/-- Whether the optimizer can be built from the standard settings and looks for low objectives. -/
def isCapable (kind : EngineKind) (around : Surroundings σ) : Bool :=
  kind.isAvailable &&
    match kind.construct Settings.standard around with
    | .ok engine => Optimizer.sense engine == Sense.minimize
    | .error _ => false

end EngineKind

end Placement
