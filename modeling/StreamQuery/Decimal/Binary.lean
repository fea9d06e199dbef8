/-!
# Doubles as exact numbers

A finite double is a natural number times a power of two. Printing works on that exact number; only
the sign and the values that are not finite are read off the double itself.
-/

namespace StreamQuery.Decimal

/-- The magnitude of a finite double, `mantissa * 2 ^ exponent`. -/
structure Binary where
  /-- The significant bits. -/
  mantissa : Nat
  /-- The power of two that scales them. -/
  exponent : Int
  /-- The gap to the next double below is half the gap to the next one above. -/
  narrowBelow : Bool

/-- The magnitude that the bits of a finite double stand for. -/
def Binary.ofBits (bits : UInt64) : Binary :=
  let biased := ((bits >>> 52) &&& 0x7FF).toNat
  let fraction := (bits &&& 0xFFFFFFFFFFFFF).toNat
  if biased = 0 then
    { mantissa := fraction, exponent := -1074, narrowBelow := false }
  else
    { mantissa := 0x10000000000000 + fraction
      exponent := (biased : Int) - 1075
      narrowBelow := fraction = 0 && 1 < biased }

/-- The sign bit of a double. -/
def isNegative (x : Float) : Bool :=
  x.toBits >>> 63 = 1

/-- Prints a double from the text of its magnitude: the sign comes first, also that of a negative
zero, and the values that are not finite have names. -/
def signed (magnitude : Binary → String) (x : Float) : String :=
  if x.isNaN then
    "NaN"
  else
    let text := if x.isInf then "inf" else magnitude (Binary.ofBits x.toBits)
    if isNegative x then "-" ++ text else text

end StreamQuery.Decimal
