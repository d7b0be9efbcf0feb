import Placement.Decimal.Binary

/-!
# Spans of time

A span is a whole number of nanoseconds. Budgets are given as a number of seconds, which is read
exactly and rounded once, to the nearest nanosecond.
-/

namespace Placement

structure Span where
  nanoseconds : Nat
deriving DecidableEq, Repr

namespace Span

/-- How many nanoseconds make a second. -/
def perSecond : Nat := 1000000000

/-- The span of whole seconds and further nanoseconds. -/
def ofParts (seconds nanos : Nat) : Span := ⟨seconds * perSecond + nanos⟩

def seconds (s : Span) : Nat := s.nanoseconds / perSecond

def nanos (s : Span) : Nat := s.nanoseconds % perSecond

inductive SecondsError where
  | negative
  | outOfRange
deriving DecidableEq, Repr

def SecondsError.message : SecondsError → String
  | negative => "cannot convert float seconds to Duration: value is negative"
  | outOfRange => "cannot convert float seconds to Duration: value is either too big or NaN"

/-- The quotient rounded to the nearest whole number, a tie going to the even one. -/
def roundDiv (n d : Nat) : Nat :=
  let q := n / d
  let r := n % d
  if 2 * r < d then q
  else if d < 2 * r then q + 1
  else q + q % 2

/-- The span of a number of seconds. It must not be negative, though it may be the negative zero, and
its whole part must fit into 64 bits. -/
def ofSeconds (x : Float) : Except SecondsError Span :=
  match Decimal.Binary.ofFloat x with
  | .notANumber => .error .outOfRange
  | .infinite negative => .error (if negative then .negative else .outOfRange)
  | .finite _ 0 _ => .ok ⟨0⟩
  | .finite true _ _ => .error .negative
  | .finite false m e =>
    let n := m <<< e.toNat
    let d := 1 <<< (-e).toNat
    if n / d < UInt64.size then .ok ⟨roundDiv (n * perSecond) d⟩ else .error .outOfRange

end Span

end Placement
