import Placement.Optimizer
import Placement.Settings.Basic

/-!
# The assignment solver

Runs the search that its settings name, then evaluates one more random assignment as a baseline and
reports how much better the best found is. An objective that has overflowed is no result: the solve
then fails.
-/

namespace Placement

/-- The state of the solver: settings in range, the clock that deadlines are read from, and the source
that unseeded solves draw from. -/
structure AssignmentSolver (σ : Type) where
  settings : Settings
  admissible : settings.fault? = none
  clock : Clock
  source : σ

namespace AssignmentSolver

def name : String := "qap_solver"

def kinds : List ProblemKind := [.assignment]

variable {σ : Type}

def ofSettings (settings : Settings) (clock : Clock) (source : σ) :
    Except Failure (AssignmentSolver σ) :=
  match h : settings.fault? with
  | none => .ok { settings, admissible := h, clock, source }
  | some fault => .error fault.toFailure

variable [RandomSource σ]

def search (settings : Settings) (t : Instance Float) (deadline : Deadline) :
    Draw σ (Finding Float) :=
  match settings.strategy with
  | .annealing => do
    let a ← Draw.obtained (settings.toAnnealing.mapError ParameterFault.toFailure)
    a.run t Annealing.metropolis deadline
  | .genetic => do
    let g ← Draw.obtained (settings.toGenetic.mapError ParameterFault.toFailure)
    g.run t deadline

/-- By how many percent of its magnitude the baseline was lowered. The magnitude keeps the sign of
the gain where objectives are negative. -/
def improvement (baseline objective : Float) : Float :=
  if baseline != 0 then (baseline - objective) / baseline.abs * 100 else 0

def overflow (objective baseline : Float) : Failure :=
  .algorithm ("objective overflowed (best " ++ Decimal.text objective ++ ", baseline " ++
    Decimal.text baseline ++ ")")

def annotations (settings : Settings) (p : Problem) (side : Nat) (baseline : Float) : Annotations :=
  let basic : Annotations :=
    ((((((∅ : Annotations).insert Optimizer.solverKey (.text name)).insert
      "algorithm" (.text settings.strategy.name)).insert
      "n" (.ofNat side)).insert
      "complexity" (.text p.complexity.name)).insert
      "baseline_objective" (.number baseline)).insert
      "gpu_requested" (.flag settings.gpu)
  let basic := basic.insert "gpu_used" (.flag false)
  match settings.seed with
  | some seed => basic.insert "seed" (.ofNat seed.toNat)
  | none => basic

/-- Answers a problem, or stops at what is wrong with it. -/
def attempt (settings : Settings) (clock : Clock) (p : Problem) : Draw σ Answer := do
  Draw.obtained (p.validateFor name kinds).toExcept
  let t ← Draw.obtained (Instance.ofProblem p)
  let deadline := Deadline.within clock settings.timeout
  let found ← search settings t deadline
  let random ← (Random.permutation t.side : StateM σ (Array Nat))
  let baseline ← Draw.checked (t.objective? random)
  if !found.objective.isFinite || !baseline.isFinite then
    throw (.failure (overflow found.objective baseline))
  let late := found.timedOut || deadline.expired found.iterations
  pure
    { status := if late then .timeout else .success
      solution := some (.permutation found.best)
      objective := some found.objective
      annotations := (annotations settings p t.side baseline).overlay found.annotations
      iterations := found.iterations
      gap := none
      improvement := improvement baseline found.objective }

/-- The answer to a problem when the source stands at `source`, and where it stands then. -/
def answerFrom (settings : Settings) (clock : Clock) (source : σ) (p : Problem) : Answer × σ :=
  let (outcome, source) := (attempt settings clock p : Draw σ Answer).run source
  (Optimizer.guard name outcome, source)

/-- Answers a problem. With a seed every solve starts its source over. -/
def solve (s : AssignmentSolver σ) (p : Problem) : Answer × AssignmentSolver σ :=
  match s.settings.seed with
  | some seed => ((answerFrom s.settings s.clock (RandomSource.ofSeed seed : σ) p).1, s)
  | none =>
    let (answer, source) := answerFrom s.settings s.clock s.source p
    (answer, { s with source })

instance : Optimizer (AssignmentSolver σ) where
  name _ := name
  kinds _ := kinds
  solve := solve

end AssignmentSolver

end Placement
