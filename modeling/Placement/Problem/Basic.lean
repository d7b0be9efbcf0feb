import Placement.Annotation
import Placement.Matrix
import Placement.Problem.Kind

/-!
# Problems

A problem is its kind, matrices under keys, and a few extras that no solver reads: constraints,
objectives and annotations. Extras that were never given are told apart from extras that are empty.
-/

namespace Placement

structure Problem where
  kind : ProblemKind
  data : Keyed (Matrix Float)
  constraints : Option (Keyed Float)
  objectives : Option (List String)
  annotations : Annotations

namespace Problem

def empty (kind : ProblemKind) : Problem :=
  { kind, data := ∅, constraints := none, objectives := none, annotations := ∅ }

/-- Puts a matrix under a key, in place of any that was there. -/
def withData (p : Problem) (key : String) (matrix : Matrix Float) : Problem :=
  { p with data := p.data.insert key matrix }

def withConstraint (p : Problem) (key : String) (value : Float) : Problem :=
  { p with constraints := some ((p.constraints.getD ∅).insert key value) }

/-- Adds an objective behind the ones before it. -/
def withObjective (p : Problem) (objective : String) : Problem :=
  { p with objectives := some (p.objectives.getD [] ++ [objective]) }

def annotate (p : Problem) (key : String) (value : Annotation) : Problem :=
  { p with annotations := p.annotations.insert key value }

def assignment (distance flow : Matrix Float) : Problem :=
  ((empty .assignment).withData DataKey.distance distance).withData DataKey.flow flow

def get? (p : Problem) (key : String) : Option (Matrix Float) := p.data[key]?

/-- An assignment problem has its distances under their key. -/
@[simp] theorem get?_assignment_distance (d f : Matrix Float) :
    (assignment d f).get? DataKey.distance = some d := by
  rw [assignment, get?, withData, withData, Std.ExtTreeMap.getElem?_insert, if_neg (by decide),
    Std.ExtTreeMap.getElem?_insert_self]

/-- An assignment problem has its flows under their key. -/
@[simp] theorem get?_assignment_flow (d f : Matrix Float) :
    (assignment d f).get? DataKey.flow = some f := by
  rw [assignment, get?, withData, Std.ExtTreeMap.getElem?_insert_self]

/-- The number of things to be placed, visited or served, as far as the data tell. For the two kinds
without a fixed key, the first matrix counts, by its longer side. -/
def dimension? (p : Problem) : Option Nat :=
  match p.kind with
  | .assignment | .routing => (p.get? DataKey.distance).map Matrix.rows
  | .allocation => (p.get? DataKey.demand).map fun demand => demand.values.size
  | .topology => (p.get? DataKey.adjacency).map Matrix.rows
  | .adversarial | .multiObjective =>
    p.data.toList.head?.map fun (_, first) => max first.rows first.cols

/-- Whether two problems compare equal in all their parts. -/
instance : BEq Problem where
  beq p q :=
    p.kind == q.kind && p.data.same q.data && sameWhere p.constraints q.constraints &&
      p.objectives == q.objectives && p.annotations.same q.annotations
where
  sameWhere : Option (Keyed Float) → Option (Keyed Float) → Bool
    | none, none => true
    | some a, some b => a.same b
    | _, _ => false

end Problem

end Placement
