import Placement.Annotation
import Placement.Gauge
import Placement.Permutation

/-!
# Results

Every solve ends in a `Result`, also when it failed. A failed result carries the reason as an
annotation; solution and objective of any other result can be trusted.

Objectives are measured in any numbers with a `Gauge`. The gap to a known optimum is a percentage of
that optimum, so it is undefined against an optimum of zero.
-/

namespace Placement

/-- How a solve ended. -/
inductive Status where
  /-- It ran to completion. -/
  | success
  /-- The time budget was used up; the best found so far is attached. -/
  | timeout
  | failed
  /-- A heuristic stood in for a solver. -/
  | fallback
deriving DecidableEq, Repr

namespace Status

def name : Status → String
  | success => "success"
  | timeout => "timeout"
  | failed => "failed"
  | fallback => "fallback"

/-- Whether solution and objective can be trusted. -/
def isUsable (s : Status) : Bool := s != failed

end Status

/-- A solution. Which form it has depends on the problem. -/
inductive Solution where
  /-- The unit in each slot, or the order of visits. -/
  | permutation (slots : Array Nat)
  /-- The amount for each consumer. -/
  | allocation (amounts : Array Float)
deriving BEq, Repr

namespace Solution

def permutation? : Solution → Option (Array Nat)
  | permutation slots => some slots
  | allocation _ => none

/-- Whether this is a permutation of `0, …, n - 1`. -/
def isPermutationOf (s : Solution) (n : Nat) : Bool :=
  match s.permutation? with
  | some slots => isPermutation slots n
  | none => false

end Solution

structure Result (α : Type) where
  status : Status
  solution : Option Solution
  objective : Option α
  annotations : Annotations
  iterations : Nat
  /-- The gap to a known optimum, in percent. -/
  gap : Option α
  /-- The gain over a random solution, in percent. -/
  improvement : α

/-- The results of the optimizers of this library. -/
abbrev Answer : Type := Result Float

namespace Result

variable {α : Type}

/-- A result with nothing but its status. -/
def ofStatus [Zero α] (status : Status) : Result α :=
  { status, solution := none, objective := none, annotations := ∅, iterations := 0, gap := none,
    improvement := 0 }

/-- The name of the annotation that says why a result failed. -/
def errorKey : String := "error"

def annotate (r : Result α) (key : String) (value : Annotation) : Result α :=
  { r with annotations := r.annotations.insert key value }

def failed [Zero α] (reason : String) : Result α :=
  (ofStatus .failed).annotate errorKey (.text reason)

/-- The reason recorded in a result. -/
def error? (r : Result α) : Option String := r.annotations[errorKey]?.bind Annotation.text?

def permutation? (r : Result α) : Option (Array Nat) := r.solution.bind Solution.permutation?

@[simp] theorem error?_failed [Zero α] (reason : String) :
    (failed reason : Result α).error? = some reason := by
  rw [error?, failed, annotate, Std.ExtTreeMap.getElem?_insert_self]
  rfl

section Gap

variable [Zero α] [Sub α] [Mul α] [Div α] [BEq α] [Gauge α]

/-- By how many percent of `optimum` the objective exceeds it. Without an objective, or against an
optimum that is zero or not finite, there is no gap. -/
def gapTo? (r : Result α) (optimum : α) : Option α :=
  r.objective.bind fun achieved =>
    if optimum == 0 || !Gauge.isFinite optimum then none
    else some ((achieved - optimum) / optimum * Gauge.ofNat 100)

/-- Records the gap to a known optimum. -/
def withGap (r : Result α) (optimum : α) : Result α := { r with gap := r.gapTo? optimum }

end Gap

end Result

end Placement
