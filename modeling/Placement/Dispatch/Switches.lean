import Placement.Dispatch.Engine

/-!
# Switches

Which specialized solvers may be used. Each family of solvers has a switch of its own; one switch
turns on all families, and one turns off whatever the others say. Switches are read and set by name,
and setting one leaves every other as it is.
-/

namespace Placement

/-- A family of specialized solvers. -/
inductive Family where
  | assignment
  | routing
  | allocation
  | topology
  | adversarial
  | multiObjective
  | metaLearning
deriving DecidableEq, Repr

namespace Family

/-- Every family, in the order in which they take effect. -/
def all : List Family :=
  [assignment, routing, allocation, topology, adversarial, multiObjective, metaLearning]

def switchName : Family → String
  | assignment => "enable_qap_specialized"
  | routing => "enable_routing_specialized"
  | allocation => "enable_allocation_specialized"
  | topology => "enable_topology_specialized"
  | adversarial => "enable_adversarial_specialized"
  | multiObjective => "enable_multi_objective_specialized"
  | metaLearning => "enable_meta_learning"

/-- The family whose switch has this name. -/
def ofSwitchName? (name : String) : Option Family :=
  all.find? fun family => family.switchName == name

/-- The kinds of problems that a solver of the family takes over. -/
def kinds : Family → List ProblemKind
  | assignment => [.assignment]
  | routing => [.routing]
  | allocation => [.allocation]
  | topology => [.topology]
  | adversarial => [.adversarial]
  | multiObjective => [.multiObjective]
  | metaLearning => ProblemKind.all

/-- The engine that implements the family, if there is one. -/
def implementation? : Family → Option EngineKind
  | assignment => some .assignment
  | _ => none

end Family

/-- The position of every switch. -/
structure Switches where
  own : Family → Bool := fun _ => false
  allSpecialized : Bool := false
  forceHeuristic : Bool := false
  gpu : Bool := false

inductive Switch where
  | own (family : Family)
  | allSpecialized
  | forceHeuristic
  | gpu
deriving DecidableEq, Repr

namespace Switch

def name : Switch → String
  | own family => family.switchName
  | allSpecialized => "enable_all_specialized"
  | forceHeuristic => "force_heuristic"
  | gpu => "enable_gpu"

def ofName? (name : String) : Option Switch :=
  if name = Switch.name .allSpecialized then some allSpecialized
  else if name = Switch.name .forceHeuristic then some forceHeuristic
  else if name = Switch.name .gpu then some gpu
  else (Family.ofSwitchName? name).map own

theorem ofName?_name (switch : Switch) : ofName? switch.name = some switch := by
  cases switch with
  | own family => cases family <;> decide
  | _ => decide

end Switch

namespace Switches

def off : Switches := {}

/-- Every family on, by the one switch that does so. -/
def specialized : Switches := { allSpecialized := true }

def position (s : Switches) : Switch → Bool
  | .own family => s.own family
  | .allSpecialized => s.allSpecialized
  | .forceHeuristic => s.forceHeuristic
  | .gpu => s.gpu

def setFamily (s : Switches) (family : Family) (value : Bool) : Switches :=
  { s with own := fun f => if f = family then value else s.own f }

def put (s : Switches) (switch : Switch) (value : Bool) : Switches :=
  match switch with
  | .own family => s.setFamily family value
  | .allSpecialized => { s with allSpecialized := value }
  | .forceHeuristic => { s with forceHeuristic := value }
  | .gpu => { s with gpu := value }

/-- Setting a switch changes its position and no other. -/
theorem position_put (s : Switches) (a b : Switch) (value : Bool) :
    (s.put a value).position b = if b = a then value else s.position b := by
  cases a <;> cases b <;> simp [put, position, setFamily]

def get? (s : Switches) (name : String) : Option Bool := (Switch.ofName? name).map s.position

def set? (s : Switches) (name : String) (value : Bool) : Option Switches :=
  (Switch.ofName? name).map fun switch => s.put switch value

/-- Sets switches by name, one after the other, and lists the names that no switch has. -/
def apply (s : Switches) : List (String × Bool) → Switches × List String
  | [] => (s, [])
  | (name, value) :: changes =>
    match s.set? name value with
    | some s => apply s changes
    | none => let (s, unknown) := apply s changes; (s, name :: unknown)

/-- The switches that named positions make of everything off. -/
def ofEntries (entries : List (String × Bool)) : Switches := (off.apply entries).1

/-- Whether the solvers of a family may be used. -/
def isEnabled (s : Switches) (family : Family) : Bool :=
  !s.forceHeuristic && (s.allSpecialized || s.own family)

end Switches

end Placement
