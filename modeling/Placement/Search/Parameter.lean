import Placement.Failure

/-!
# Search parameters

What can be wrong with the numbers that steer a search, and the ranges that more than one place
checks.
-/

namespace Placement

inductive ParameterFault where
  | noIterations
  | temperature
  | cooling
  | floor
  | mutationRate
  | tournamentSize
  | populationSize
deriving DecidableEq, Repr

namespace ParameterFault

def message : ParameterFault → String
  | noIterations => "Maximum iterations must be greater than 0"
  | temperature => "Initial temperature must be positive"
  | cooling => "Cooling rate must be between 0.0 and 1.0 (exclusive)"
  | floor => "Minimum temperature must be non-negative and below the initial temperature"
  | mutationRate => "Mutation rate must be between 0.0 and 1.0"
  | tournamentSize => "Tournament size must be at least 1"
  | populationSize => "Population size must be at least 2"

/-- A parameter outside its range is a failure of configuration. -/
def toFailure (fault : ParameterFault) : Failure := .configuration fault.message

end ParameterFault

/-- Whether a cooling rate lies strictly between zero and one. -/
def isCooling (rate : Float) : Bool := 0 < rate && rate < 1

/-- Whether a rate lies between zero and one, both included. -/
def isRate (rate : Float) : Bool := 0 ≤ rate && rate ≤ 1

end Placement
