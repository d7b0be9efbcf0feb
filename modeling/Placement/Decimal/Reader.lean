import Placement.Text.Numeral

/-!
# Reading decimal text

The grammar of a number in text: an optional sign, and then either one of the words `inf`, `infinity`
and `nan` in any case, or digits with at most one point among them and at least one digit in all,
which an exponent may follow. The value is the nearest `Float`, a tie going to the even mantissa.
-/

namespace Placement.Decimal

open Placement.Text (digitValue)

inductive ReadError where
  | empty
  | malformed
deriving DecidableEq, Repr

def ReadError.message : ReadError → String
  | empty => "cannot parse float from empty string"
  | malformed => "invalid float literal"

/-- What a sign in front of a number makes of it: whether it is negative, and what follows. -/
def splitSign : List Char → Bool × List Char
  | '-' :: cs => (true, cs)
  | '+' :: cs => (false, cs)
  | cs => (false, cs)

/-- The number that `digits` writes in base ten. -/
def ofDigits (digits : List Char) : Nat :=
  digits.foldl (fun n c => n * 10 + digitValue c) 0

/-- An exponent and nothing after it. No exponent at all counts as zero. -/
def readExponent? : List Char → Option Int
  | [] => some 0
  | c :: cs =>
    if c = 'e' || c = 'E' then
      let (negative, digits) := splitSign cs
      if digits.isEmpty || !digits.all Char.isDigit then none
      else some (if negative then -(ofDigits digits : Int) else ofDigits digits)
    else none

/-- An unsigned number with digits: all its digits, and the power of ten that the last of them
counts. -/
def readDecimal? (cs : List Char) : Option (List Char × Int) :=
  let whole := cs.takeWhile Char.isDigit
  let rest := cs.dropWhile Char.isDigit
  let (fraction, rest) :=
    match rest with
    | '.' :: ds => (ds.takeWhile Char.isDigit, ds.dropWhile Char.isDigit)
    | ds => ([], ds)
  if whole.isEmpty && fraction.isEmpty then none
  else (readExponent? rest).map fun e => (whole ++ fraction, e - fraction.length)

/-- The `Float` nearest to `mantissa * 10 ^ exponent`. From `10 ^ 310` on that is infinity and below
`10 ^ (-330)` it is zero; settling both by the count of digits keeps the powers of ten small. -/
def nearest (mantissa : Nat) (exponent : Int) : Float :=
  let magnitude := (Nat.toDigits 10 mantissa).length + exponent
  if mantissa = 0 || magnitude < -330 then 0
  else if magnitude > 310 then Float.ofBits 0x7FF0000000000000
  else Float.ofScientific mantissa (exponent < 0) exponent.natAbs

def readUnsigned? (cs : List Char) : Option Float :=
  let word := String.ofList (cs.map Char.toLower)
  if word = "inf" || word = "infinity" then some (Float.ofBits 0x7FF0000000000000)
  else if word = "nan" then some (Float.ofBits 0x7FF8000000000000)
  else (readDecimal? cs).map fun (digits, e) => nearest (ofDigits digits) e

def read (s : String) : Except ReadError Float :=
  match s.toList with
  | [] => .error .empty
  | cs =>
    let (negative, unsigned) := splitSign cs
    match readUnsigned? unsigned with
    | some x => .ok (if negative then -x else x)
    | none => .error .malformed

end Placement.Decimal
