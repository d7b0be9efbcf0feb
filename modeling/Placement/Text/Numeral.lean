/-!
# Whole numbers and truth values in text

Reading a whole number below `2 ^ 64` and reading a truth value. A number may open with one plus
sign; otherwise it consists of the digits `0` to `9` alone. Digits are taken from the left and the
first fault decides which error is reported, so a number that is already too large hides a bad
character further right.
-/

namespace Placement.Text

inductive NumeralError where
  | empty
  | badDigit
  | tooLarge
deriving DecidableEq, Repr

def NumeralError.message : NumeralError → String
  | empty => "cannot parse integer from empty string"
  | badDigit => "invalid digit found in string"
  | tooLarge => "number too large to fit in target type"

/-- The value of a digit character. -/
def digitValue (c : Char) : Nat := c.toNat - '0'.toNat

/-- Reads the remaining digits of a number whose digits so far have the value `sofar`. -/
def readDigits (limit sofar : Nat) : List Char → Except NumeralError Nat
  | [] => .ok sofar
  | c :: cs =>
    if c.isDigit then
      let next := sofar * 10 + digitValue c
      if next < limit then readDigits limit next cs else .error .tooLarge
    else .error .badDigit

/-- The number that `s` writes, if it is below `2 ^ 64`. -/
def readUInt64 (s : String) : Except NumeralError UInt64 :=
  let digits (cs : List Char) : Except NumeralError UInt64 :=
    (readDigits UInt64.size 0 cs).map Nat.toUInt64
  match s.toList with
  | [] => .error .empty
  | ['+'] => .error .badDigit
  | '+' :: cs => digits cs
  | cs => digits cs

/-- The text shown where a truth value was expected and none was found. -/
def truthMessage : String := "provided string was not \x60true\x60 or \x60false\x60"

/-- The truth value that `s` names, in lower case and with nothing around it. -/
def readBool? (s : String) : Option Bool :=
  if s = "true" then some true else if s = "false" then some false else none

end Placement.Text
