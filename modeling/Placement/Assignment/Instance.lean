import Placement.Problem.Validation

/-!
# Assignment instances

An instance is a pair of square matrices of the same side: distances between slots and flows between
units. An assignment puts a unit into every slot, and its objective sums, over all pairs of slots, the
distance times the flow between the units they hold. `swapDelta` is the change of the objective when
two slots exchange their units, from a number of terms linear in the side.

Both are written for any numbers with the operations they use. Over exact numbers the change is the
difference of the two objectives; in floating point each is rounded on its own, in the order of its
terms.

The two functions are total. `objective?` and `swapDelta?` are the forms that a search calls. The first
asks for an assignment that fills exactly the slots of the instance; the second only makes sure that
every cell it is about to read exists.
-/

namespace Placement

/-- A pair of square matrices of the same side. -/
structure Instance (α : Type) where
  side : Nat
  distance : Matrix α
  flow : Matrix α
  dim_distance : distance.dim = (side, side)
  dim_flow : flow.dim = (side, side)

namespace Instance

variable {α : Type}

/-- Two matrices have the same side if they have no defect as a pair. -/
theorem dims_of_pairDefect? {distance flow : Matrix Float}
    (h : pairDefect? distance flow = none) :
    distance.dim = (distance.rows, distance.rows) ∧ flow.dim = (distance.rows, distance.rows) := by
  unfold pairDefect? at h
  simp only [Matrix.isSquare, Bool.not_eq_true', beq_eq_false_iff_ne, ne_eq] at h
  split at h
  · cases h
  · split at h
    · cases h
    · split at h
      · cases h
      · next hd hf hs =>
        simp only [Decidable.not_not] at hd hf hs
        simp [Matrix.dim, ← hd, ← hf, hs]

def ofMatrices (distance flow : Matrix Float) : Except Failure (Instance Float) :=
  match h : pairDefect? distance flow with
  | some defect => .error (.validation defect.message)
  | none =>
    .ok
      { side := distance.rows
        distance
        flow
        dim_distance := (dims_of_pairDefect? h).1
        dim_flow := (dims_of_pairDefect? h).2 }

def ofProblem (p : Problem) : Except Failure (Instance Float) :=
  if p.kind ≠ .assignment then
    .error (.validation ("expected a qap problem, got " ++ p.kind.name))
  else
    match p.get? DataKey.distance, p.get? DataKey.flow with
    | none, _ => .error (.validation "missing 'distance' data")
    | some _, none => .error (.validation "missing 'flow' data")
    | some distance, some flow => ofMatrices distance flow

/-! ## Objective -/

section Objective

variable [Zero α] [Add α] [Mul α]

/-- Adds what the pairs of slot `i` with every slot contribute, from left to right. -/
@[specialize] def addRow (t : Instance α) (p : Array Nat) (i : Nat) (total : α) : α :=
  let unit := p.getD i 0
  Nat.fold t.side (fun j _ total => total + t.distance.cell i j * t.flow.cell unit (p.getD j 0))
    total

/-- The sum, over all pairs of slots in row order, of distance times flow. -/
@[specialize] def objective (t : Instance α) (p : Array Nat) : α :=
  Nat.fold t.side (fun i _ total => t.addRow p i total) 0

/-- Whether there is one unit for every slot and none beyond, and each unit has its row of flows. -/
def covers (t : Instance α) (p : Array Nat) : Bool := p.size == t.side && p.all (· < t.side)

/-- The objective of an assignment that covers the instance. -/
@[specialize] def objective? (t : Instance α) (p : Array Nat) : Except Breach α :=
  if t.covers p then .ok (t.objective p) else .error .outOfBounds

end Objective

/-! ## Exchanges -/

section Exchange

variable [Zero α] [Add α] [Sub α] [Mul α]

/-- What the four pairs within the slots `r` and `s` contribute to the change. -/
@[specialize] def cornerDelta (t : Instance α) (r s u v : Nat) : α :=
  let d := t.distance.cell
  let f := t.flow.cell
  d r r * (f v v - f u u) + d r s * (f v u - f u v) + d s r * (f u v - f v u) +
    d s s * (f u u - f v v)

/-- What the four pairs of `r` and `s` with another slot `k`, which holds `w`, contribute. -/
@[specialize] def crossDelta (t : Instance α) (r s u v k w : Nat) : α :=
  let d := t.distance.cell
  let f := t.flow.cell
  d k r * (f w v - f w u) + d k s * (f w u - f w v) + d r k * (f v w - f u w) +
    d s k * (f u w - f v w)

/-- The change of the objective when the slots `r` and `s`, which hold `u` and `v`, exchange them. -/
@[specialize] def swapDelta (t : Instance α) (p : Array Nat) (r s : Nat) : α :=
  if r = s then 0
  else
    let u := p.getD r 0
    let v := p.getD s 0
    Nat.fold p.size
      (fun k _ delta =>
        if k = r || k = s then delta else delta + t.crossDelta r s u v k (p.getD k 0))
      (t.cornerDelta r s u v)

/-- Whether the change can be read off: both slots are filled, no slot lies outside the instance, and
each unit has its row of flows. -/
def admits (t : Instance α) (p : Array Nat) (r s : Nat) : Bool :=
  r < p.size && s < p.size && p.size ≤ t.side && p.all (· < t.side)

/-- The change for an exchange that can be read off. A slot exchanged with itself reads nothing. -/
@[specialize] def swapDelta? (t : Instance α) (p : Array Nat) (r s : Nat) : Except Breach α :=
  if r = s || t.admits p r s then .ok (t.swapDelta p r s) else .error .outOfBounds

end Exchange

end Instance

end Placement
