import Placement.Decimal.Shortest

/-!
# Plain decimal text

Numbers written out in full: never with an exponent, without a point where nothing follows it, and
with a zero before a point that would stand first. The digits are those of the shortest decimal that
reads back to the number.
-/

namespace Placement.Decimal

/-- The digits of `q` with the point moved by `p` places. -/
def place (q : Nat) (p : Int) : String :=
  let digits := Nat.toDigits 10 q
  let zeros (n : Nat) : List Char := List.replicate n '0'
  let fraction := (-p).toNat
  if fraction = 0 then String.ofList (digits ++ zeros p.toNat)
  else if digits.length ≤ fraction then
    String.ofList (['0', '.'] ++ zeros (fraction - digits.length) ++ digits)
  else
    let whole := digits.length - fraction
    String.ofList (digits.take whole ++ ['.'] ++ digits.drop whole)

def Binary.text : Binary → String
  | .notANumber => "NaN"
  | .infinite negative => sign negative ++ "inf"
  | .finite negative 0 _ => sign negative ++ "0"
  | .finite negative m e => let (q, p) := shortest m e; sign negative ++ place q p
where
  sign (negative : Bool) : String := if negative then "-" else ""

def text (x : Float) : String := (Binary.ofFloat x).text

end Placement.Decimal
