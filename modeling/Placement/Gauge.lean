/-!
# Gauges

What the library needs of the numbers it measures objectives in, beyond their arithmetic. Searches
and statistics are written for any such numbers. They run on `Float`, where rounding and overflow are
part of the result, and the same definitions can be read over exact numbers.
-/

namespace Placement

/-- Numbers that count and that know whether they are finite. -/
class Gauge (α : Type) where
  ofNat : Nat → α
  isFinite : α → Bool

instance : Gauge Float where
  ofNat := Float.ofNat
  isFinite := Float.isFinite

end Placement
