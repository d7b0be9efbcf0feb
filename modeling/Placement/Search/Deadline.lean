import Placement.Gauge
import Placement.Annotation
import Placement.Span

/-!
# Deadlines and findings

A search reads its deadline before every step. What it then sees depends on a clock outside the
library, so a `Clock` is the sequence of times it shows, one for each reading, and a `Deadline` is the
sequence of answers to the question whether the budget is used up.
-/

namespace Placement

/-- The time passed since the start, at each reading. -/
structure Clock where
  elapsed : Nat → Span

/-- The clock on which no time passes. -/
def Clock.still : Clock := ⟨fun _ => ⟨0⟩⟩

/-- Whether the budget is used up, at each reading. -/
structure Deadline where
  expired : Nat → Bool

namespace Deadline

/-- The deadline that never comes. -/
def never : Deadline := ⟨fun _ => false⟩

/-- The deadline of a budget. A budget of nothing is used up at once. -/
def within (clock : Clock) : Option Span → Deadline
  | none => never
  | some budget => ⟨fun k => budget.nanoseconds ≤ (clock.elapsed k).nanoseconds⟩

end Deadline

/-- What a search hands back. -/
structure Finding (α : Type) where
  /-- The best assignment seen. -/
  best : Array Nat
  objective : α
  /-- How many steps were completed. Each reads the deadline once, so this also numbers the next
  reading if the search was not cut short. -/
  iterations : Nat
  /-- Whether the deadline cut the search short. -/
  timedOut : Bool
  annotations : Annotations

end Placement
