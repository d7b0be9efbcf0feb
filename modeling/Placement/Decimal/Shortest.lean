import Placement.Decimal.Binary

/-!
# Shortest decimals

The shortest decimal that still rounds to a given binary fraction, and among those of that length the
nearest one.

The reals that round to `m * 2 ^ e` form an interval around it, its `Window`. A decimal of few digits
is a multiple of a high power of ten, so the search goes down the grids `10 ^ p` from a coarse one
and stops at the first that has a point in the window. On a grid only the two neighbours of the value
need a test: if any point of the grid lies in the window, so does one of these.
-/

namespace Placement.Decimal

/-- The reals that round to a value, as three numerators over one denominator. The ends belong to
the window if `closed`. -/
structure Window where
  low : Nat
  value : Nat
  high : Nat
  denominator : Nat
  closed : Bool
deriving DecidableEq, Repr

namespace Window

/-- The window of `m * 2 ^ e`. Its ends lie halfway to the neighbours; below a power of two the
neighbour is only half as far away. A tie is rounded to the even mantissa, so the ends count exactly
when `m` is even. -/
def ofBinary (m : Nat) (e : Int) : Window :=
  let below := if m = Binary.hiddenBit && Binary.leastExponent < e then 1 else 2
  let scale := (e - 2).toNat
  { low := (4 * m - below) <<< scale
    value := (4 * m) <<< scale
    high := (4 * m + 2) <<< scale
    denominator := 1 <<< (2 - e).toNat
    closed := m % 2 == 0 }

/-- Whether `n / unit` lies in the window stretched by `stretch`. -/
def contains (w : Window) (stretch n : Nat) : Bool :=
  if w.closed then w.low * stretch ≤ n && n ≤ w.high * stretch
  else w.low * stretch < n && n < w.high * stretch

/-- The multiple of `10 ^ p` that lies in the window, as a count of `10 ^ p`, if there is one. Of two
the nearer wins, and of two equally near ones the greater. -/
def onGrid? (w : Window) (p : Int) : Option Nat :=
  let unit := w.denominator * Nat.pow 10 p.toNat
  let stretch := Nat.pow 10 (-p).toNat
  let value := w.value * stretch
  let q := value / unit
  let down := w.contains stretch (q * unit)
  let up := w.contains stretch ((q + 1) * unit)
  if down && (!up || value - q * unit < (q + 1) * unit - value) then some q
  else if up then some (q + 1)
  else none

/-- Goes down the grids from `10 ^ p`, at most `steps` of them below the first. -/
def coarsest (w : Window) (p : Int) : Nat → Nat × Int
  | 0 => (w.value, 0)
  | steps + 1 =>
    match w.onGrid? p with
    | some q => (q, p)
    | none => coarsest w (p - 1) steps

end Window

/-- The shortest decimal `q * 10 ^ p` for the positive value `m * 2 ^ e`, as the pair of `q` and `p`.
No `Float` reaches `10 ^ 309`, and each is a multiple of `10 ^ (-1074)`, so the search finds its
grid. -/
def shortest (m : Nat) (e : Int) : Nat × Int :=
  (Window.ofBinary m e).coarsest 309 1385

end Placement.Decimal
