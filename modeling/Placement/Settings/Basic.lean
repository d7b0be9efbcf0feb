import Placement.Search.Annealing
import Placement.Search.Genetic

/-!
# Settings

The settings of the assignment solver: which search to run, its parameters, and how to run it. They
are plain values that may lie outside their ranges; `fault?` finds the first that does. Settings
without a fault are accepted by both searches.
-/

namespace Placement

inductive Strategy where
  | annealing
  | genetic
deriving DecidableEq, Repr

def Strategy.name : Strategy → String
  | annealing => "simulated_annealing"
  | genetic => "genetic"

structure Settings where
  strategy : Strategy := .annealing
  /-- The budget of steps. A genetic search divides it by the size of its generations. -/
  maxIterations : UInt64 := 10000
  temperature : Float := 100
  cooling : Float := 0.995
  floor : Float := 0.001
  mutationRate : Float := 0.1
  tournamentSize : UInt64 := 3
  maxPopulation : UInt64 := 50
  /-- Without a seed every solve draws on. -/
  seed : Option UInt64 := none
  timeout : Option Span := none
  /-- Recorded in results and otherwise without effect. -/
  gpu : Bool := false

namespace Settings

/-- The settings that hold where nothing else is said. -/
def standard : Settings := {}

/-- The first parameter that lies outside its range. -/
def fault? (s : Settings) : Option ParameterFault :=
  if s.maxIterations = 0 then some .noIterations
  else if !(0 < s.temperature && s.temperature.isFinite) then some .temperature
  else if !isCooling s.cooling then some .cooling
  else if !(0 ≤ s.floor && s.floor < s.temperature) then some .floor
  else if !isRate s.mutationRate then some .mutationRate
  else if s.tournamentSize < 1 then some .tournamentSize
  else if s.maxPopulation < 2 then some .populationSize
  else none

/-- Settings in range, or the failure that their first fault amounts to. -/
def validate (s : Settings) : Except Failure Unit :=
  match s.fault? with
  | none => .ok ()
  | some fault => .error fault.toFailure

def toAnnealing (s : Settings) : Except ParameterFault Annealing :=
  Annealing.ofParameters s.maxIterations.toNat s.temperature s.cooling s.floor

def toGenetic (s : Settings) : Except ParameterFault Genetic :=
  Genetic.ofParameters s.maxIterations.toNat s.maxPopulation.toNat s.mutationRate s.tournamentSize.toNat

end Settings

end Placement
