import Placement.Decimal.Reader
import Placement.Matrix
import Placement.Text.Blank
import Placement.Text.Quoted

/-!
# Instances in text

The text form of an assignment instance: its side, then all distances and then all flows, each in row
order, as words with blanks between them. How the words are spread over lines means nothing, and
whatever follows the last flow is not read.
-/

namespace Placement.InstanceText

/-- The two matrices of an instance. -/
inductive Part where
  | distance
  | flow
deriving DecidableEq, Repr

def Part.name : Part → String
  | distance => "distance"
  | flow => "flow"

inductive Fault where
  | noWords
  | badSide (cause : Text.NumeralError)
  | sideZero
  | sideTooLarge (side : Nat)
  | badEntry (part : Part) (word : String) (cause : Decimal.ReadError)
  | tooFew (part : Part) (count expected : Nat)
  /-- The entries of a part do not fill a square. -/
  | misshapen (cause : Matrix.Misshape)
deriving DecidableEq, Repr

def Fault.message : Fault → String
  | noWords => "empty instance file"
  | badSide cause => "invalid dimension: " ++ cause.message
  | sideZero => "dimension must be at least 1"
  | sideTooLarge side => "dimension " ++ toString side ++ " is too large"
  | badEntry part word cause =>
    "invalid " ++ part.name ++ " entry " ++ Text.Quoted.quote word ++ ": " ++ cause.message
  | tooFew part count expected =>
    part.name ++ " matrix has " ++ toString count ++ " entries, expected " ++ toString expected
  | misshapen cause => cause.message

/-- What is wrong with the words is a fault of the text, but a misshapen matrix is invalid data. -/
def Fault.toFailure : Fault → Failure
  | misshapen cause => .validation cause.message
  | fault => .parse fault.message

/-- The side that a word writes. A square of that side must have fewer than `2 ^ 64` cells. -/
def readSide (word : String) : Except Fault Nat :=
  match Text.readUInt64 word with
  | .error cause => .error (.badSide cause)
  | .ok side =>
    if side = 0 then .error .sideZero
    else if UInt64.size ≤ side.toNat * side.toNat then .error (.sideTooLarge side.toNat)
    else .ok side.toNat

def readEntry (part : Part) (word : String) : Except Fault Float :=
  (Decimal.read word).mapError (.badEntry part word)

/-- The square matrix whose entries are the first words. An entry that is no number is reported
before a lack of entries. -/
def readPart (part : Part) (side : Nat) (words : List String) : Except Fault (Matrix Float) := do
  let entries ← (words.take (side * side)).mapM (readEntry part)
  if entries.length = side * side then (Matrix.square side entries.toArray).mapError .misshapen
  else throw (.tooFew part entries.length (side * side))

def ofWords : List String → Except Fault (Matrix Float × Matrix Float)
  | [] => .error .noWords
  | first :: words => do
    let side ← readSide first
    let distance ← readPart .distance side words
    let flow ← readPart .flow side (words.drop (side * side))
    pure (distance, flow)

def parse (text : String) : Except Failure (Matrix Float × Matrix Float) :=
  (ofWords (Text.words text)).mapError Fault.toFailure

end Placement.InstanceText
