/-!
# Binary fractions

The number behind a `Float`: a sign, a whole mantissa and a power of two, read off the bits. This is
the form in which the exact questions are asked, such as which decimals round to a given value or how
many nanoseconds a number of seconds amounts to.
-/

namespace Placement.Decimal

/-- What a `Float` stands for. -/
inductive Binary where
  /-- `mantissa * 2 ^ exponent`, negated if `negative`; both zeros have mantissa zero. -/
  | finite (negative : Bool) (mantissa : Nat) (exponent : Int)
  | infinite (negative : Bool)
  | notANumber
deriving DecidableEq, Repr

namespace Binary

/-- The least exponent: that of the subnormal numbers. -/
def leastExponent : Int := -1074

/-- The mantissa of a normal number has this bit. -/
def hiddenBit : Nat := 0x10000000000000

/-- Reads sign, exponent and fraction off the 64 bits. -/
def ofBits (bits : Nat) : Binary :=
  let negative := bits >>> 63 % 2 == 1
  let field := bits >>> 52 % 2048
  let fraction := bits % hiddenBit
  if field = 2047 then
    if fraction = 0 then infinite negative else notANumber
  else if field = 0 then finite negative fraction leastExponent
  else finite negative (hiddenBit + fraction) (leastExponent + (field - 1 : Nat))

def ofFloat (x : Float) : Binary := ofBits x.toBits.toNat

end Binary

end Placement.Decimal
