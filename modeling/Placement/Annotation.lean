import Placement.Decimal.Plain
import Placement.Keyed

/-!
# Annotations

Named values of a few kinds that problems and results carry along. Nothing is computed from them.
-/

namespace Placement

/-- The value of an annotation. -/
inductive Annotation where
  | flag (value : Bool)
  /-- A whole number from `-2 ^ 63` up to `2 ^ 63 - 1`. -/
  | integer (value : Int)
  | number (value : Float)
  | text (value : String)
deriving BEq, Repr

abbrev Annotations : Type := Keyed Annotation

namespace Annotation

/-- A count. One that is too large for an integer is kept exactly, as text. -/
def ofNat (n : Nat) : Annotation :=
  if n < 0x8000000000000000 then integer n else text (toString n)

def text? : Annotation → Option String
  | text s => some s
  | _ => none

def number? : Annotation → Option Float
  | number x => some x
  | integer n => some (Float.ofInt n)
  | _ => none

def flag? : Annotation → Option Bool
  | flag b => some b
  | _ => none

def display : Annotation → String
  | flag b => if b then "true" else "false"
  | integer n => toString n
  | number x => Decimal.text x
  | text s => s

end Annotation

end Placement
