import Placement.Dispatch.Switches

/-!
# The registry

Which engine solves which kind of problem. Every kind starts out with the heuristic; each family that
is switched on and has an implementation then takes over its kinds.
-/

namespace Placement

/-- An engine for every kind of problem that is registered. -/
structure Registry where
  entries : List (ProblemKind × EngineKind)
deriving DecidableEq, Repr

namespace Registry

/-- The heuristic for every kind. -/
def heuristics : Registry := ⟨ProblemKind.all.map fun kind => (kind, .heuristic)⟩

def kinds (r : Registry) : List ProblemKind := r.entries.map Prod.fst

def assign (r : Registry) (engine : EngineKind) (kind : ProblemKind) : Registry :=
  ⟨r.entries.map fun entry => if entry.1 = kind then (kind, engine) else entry⟩

/-- The engine for a kind; the heuristic if the kind is not registered. -/
def engineFor (r : Registry) (kind : ProblemKind) : EngineKind :=
  (r.entries.lookup kind).getD .heuristic

/-- Lets a family take over, if it is switched on and has an implementation among `capable`. -/
def install (switches : Switches) (capable : List EngineKind) (r : Registry) (family : Family) :
    Registry :=
  match family.implementation? with
  | some engine =>
    if switches.isEnabled family && capable.contains engine then
      family.kinds.foldl (fun r kind => r.assign engine kind) r
    else r
  | none => r

/-- The registry that follows from the position of the switches. -/
def resolve (switches : Switches) (capable : List EngineKind) : Registry :=
  Family.all.foldl (install switches capable) heuristics

end Registry

end Placement
