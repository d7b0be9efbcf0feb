import Placement.Failure

/-!
# Kinds of problems

The kinds of optimization problems, each with its name and with the data it cannot do without.
-/

namespace Placement

inductive ProblemKind where
  /-- Placing units on slots so that much flow travels short distances. -/
  | assignment
  /-- Visiting every node once. -/
  | routing
  /-- Dividing an amount among consumers. -/
  | allocation
  /-- Ordering the nodes of a network. -/
  | topology
  | adversarial
  | multiObjective
deriving DecidableEq, Repr

namespace ProblemKind

def all : List ProblemKind :=
  [assignment, routing, allocation, topology, adversarial, multiObjective]

theorem mem_all (kind : ProblemKind) : kind ∈ all := by cases kind <;> decide

def name : ProblemKind → String
  | assignment => "qap"
  | routing => "workflow_routing"
  | allocation => "resource_allocation"
  | topology => "network_topology"
  | adversarial => "adversarial_robust"
  | multiObjective => "multi_objective"

def ofName? (name : String) : Option ProblemKind := all.find? fun kind => kind.name == name

/-- The kind that has this name, or a failure that repeats the name. -/
def ofName (name : String) : Except Failure ProblemKind :=
  match ofName? name with
  | some kind => .ok kind
  | none => .error (.configuration ("unknown problem type '" ++ name ++ "'"))

end ProblemKind

/-! ## Data keys -/

namespace DataKey

/-- The distances of an assignment or a route. -/
def distance : String := "distance"
/-- The flows of an assignment. -/
def flow : String := "flow"
/-- What each consumer asks for. -/
def demand : String := "demand"
/-- What there is to divide. -/
def capacity : String := "capacity"
/-- The links of a network. -/
def adjacency : String := "adjacency"

end DataKey

/-- The keys of the data that a problem of this kind must have, in the order they are asked for. -/
def ProblemKind.requiredKeys : ProblemKind → List String
  | assignment => [DataKey.distance, DataKey.flow]
  | routing => [DataKey.distance]
  | allocation => [DataKey.demand]
  | topology => [DataKey.adjacency]
  | adversarial => []
  | multiObjective => []

end Placement
