import Placement.Problem.Basic

/-!
# Validation

Whether a problem has the data its kind asks for, in the right shape and with usable numbers. The
check reports the first `Defect` it meets; a problem without one is valid.
-/

namespace Placement

/-- The outcome of a check, with a text if something was found. -/
structure Verdict where
  valid : Bool
  message : Option String
deriving DecidableEq, Repr

namespace Verdict

def ok : Verdict := ⟨true, none⟩

def invalid (message : String) : Verdict := ⟨false, some message⟩

/-- An invalid outcome is a failure; without a text of its own it gets a general one. -/
def toExcept (v : Verdict) : Except Failure Unit :=
  if v.valid then .ok () else .error (.validation (v.message.getD "invalid problem"))

end Verdict

/-! ## Defects -/

/-- What is wrong with a pair of matrices that ought to be an assignment instance. -/
inductive PairDefect where
  | distanceNotSquare (rows cols : Nat)
  | flowNotSquare (rows cols : Nat)
  | sidesDiffer (distance flow : Nat)
  | noFacility
  | notFinite
deriving DecidableEq, Repr

inductive Defect where
  | missing (kind : ProblemKind) (key : String)
  | noData (kind : ProblemKind)
  | notSquare (key : String) (rows cols : Nat)
  | isEmpty (key : String)
  | notFinite (key : String)
  | notAmounts (key : String)
  | pair (defect : PairDefect)
deriving DecidableEq, Repr

def shapeText (rows cols : Nat) : String := toString rows ++ "x" ++ toString cols

def PairDefect.message : PairDefect → String
  | distanceNotSquare rows cols => "distance matrix must be square, got " ++ shapeText rows cols
  | flowNotSquare rows cols => "flow matrix must be square, got " ++ shapeText rows cols
  | sidesDiffer distance flow =>
    "distance (" ++ shapeText distance distance ++ ") and flow (" ++ shapeText flow flow ++
      ") dimensions differ"
  | noFacility => "QAP instance must have at least one facility"
  | notFinite => "QAP matrices contain non-finite values"

def Defect.message : Defect → String
  | missing kind key => kind.name ++ " problem is missing required '" ++ key ++ "' data"
  | noData kind => kind.name ++ " problem has no data"
  | notSquare key rows cols =>
    "'" ++ key ++ "' must be a non-empty square matrix, got " ++ shapeText rows cols
  | isEmpty key => "'" ++ key ++ "' must not be empty"
  | notFinite key => "'" ++ key ++ "' contains non-finite values"
  | notAmounts key => "'" ++ key ++ "' must contain finite non-negative values"
  | pair defect => defect.message

/-! ## Checks -/

namespace Matrix

/-- Whether every value is finite and not negative. -/
def isAmounts (m : Matrix Float) : Bool := m.values.all fun x => x.isFinite && 0 ≤ x

/-- The defect of a matrix that should be square with at least one row. -/
def squareDefect? (key : String) (m : Matrix Float) : Option Defect :=
  if !m.isSquare || m.isEmpty then some (.notSquare key m.rows m.cols)
  else if !m.isFinite then some (.notFinite key)
  else none

/-- The defect of a matrix that should hold some finite values. -/
def contentDefect? (key : String) (m : Matrix Float) : Option Defect :=
  if m.isEmpty then some (.isEmpty key)
  else if !m.isFinite then some (.notFinite key)
  else none

end Matrix

/-- The defect of two matrices that should be squares of the same side, with at least one row. -/
def pairDefect? (distance flow : Matrix Float) : Option PairDefect :=
  if !distance.isSquare then some (.distanceNotSquare distance.rows distance.cols)
  else if !flow.isSquare then some (.flowNotSquare flow.rows flow.cols)
  else if distance.rows ≠ flow.rows then some (.sidesDiffer distance.rows flow.rows)
  else if distance.isEmpty then some .noFacility
  else if !distance.isFinite || !flow.isFinite then some .notFinite
  else none

def pairVerdict (distance flow : Matrix Float) : Verdict :=
  match pairDefect? distance flow with
  | none => .ok
  | some defect => .invalid defect.message

namespace Problem

/-- The defect of a problem that must have a square matrix under `key`. -/
def squareDefect? (p : Problem) (key : String) : Option Defect :=
  match p.get? key with
  | none => some (.missing p.kind key)
  | some m => m.squareDefect? key

def assignmentDefect? (p : Problem) : Option Defect :=
  match p.get? DataKey.distance, p.get? DataKey.flow with
  | some distance, some flow => (pairDefect? distance flow).map Defect.pair
  | none, _ => some (.missing p.kind DataKey.distance)
  | _, none => some (.missing p.kind DataKey.flow)

/-- The defect of an allocation problem. The capacity may be left out. -/
def allocationDefect? (p : Problem) : Option Defect :=
  match p.get? DataKey.demand with
  | none => some (.missing p.kind DataKey.demand)
  | some demand =>
    if demand.isEmpty then some (.isEmpty DataKey.demand)
    else if !demand.isAmounts then some (.notAmounts DataKey.demand)
    else match p.get? DataKey.capacity with
      | none => none
      | some capacity => if capacity.isAmounts then none else some (.notAmounts DataKey.capacity)

/-- The defect of a problem that may have any data, as long as it has some. -/
def anyDataDefect? (p : Problem) : Option Defect :=
  if p.data.isEmpty then some (.noData p.kind)
  else p.data.toList.findSome? fun (key, m) => m.contentDefect? key

def defect? (p : Problem) : Option Defect :=
  match p.kind with
  | .assignment => p.assignmentDefect?
  | .routing => p.squareDefect? DataKey.distance
  | .topology => p.squareDefect? DataKey.adjacency
  | .allocation => p.allocationDefect?
  | .adversarial | .multiObjective => p.anyDataDefect?

def validate (p : Problem) : Verdict :=
  match p.defect? with
  | none => .ok
  | some defect => .invalid defect.message

theorem validate_valid_iff (p : Problem) : p.validate.valid = true ↔ p.defect? = none := by
  unfold validate
  cases p.defect? <;> simp [Verdict.ok, Verdict.invalid]

/-- A text comes with a verdict exactly if the problem is invalid. -/
theorem validate_message (p : Problem) : p.validate.message = p.defect?.map Defect.message := by
  unfold validate
  cases p.defect? <;> rfl

end Problem

end Placement
