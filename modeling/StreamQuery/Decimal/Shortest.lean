import StreamQuery.Decimal.Binary

/-!
# Shortest decimals

A finite double stands for an interval of reals, those that round to it. `Binary.shortest` is the
decimal on the coarsest power-of-ten grid that has a point in this interval. Of two such points the
nearer is taken, and the upper one if both are equally near. `positional` writes it without an
exponent.
-/

namespace StreamQuery

/-- The decimal `digits * 10 ^ exponent`. -/
structure Decimal where
  /-- The significant digits. -/
  digits : Nat
  /-- The power of ten that scales them. -/
  exponent : Int
  deriving DecidableEq

namespace Decimal

/-- Compares `a * 2 ^ i` with `d * 10 ^ e`. -/
def compareScaled (a : Nat) (i : Int) (d : Nat) (e : Int) : Ordering :=
  compare (a * .pow 2 i.toNat * .pow 10 (-e).toNat) (d * .pow 10 e.toNat * .pow 2 (-i).toNat)

/-- Whether a decimal lies in the interval of reals that round to `x`. Its ends, halfway to the two
neighbours of `x`, round to `x` exactly if the mantissa is even. -/
def Binary.readsBack (x : Binary) (d : Decimal) : Bool :=
  let quarter := x.exponent - 2
  let low := 4 * x.mantissa - (if x.narrowBelow then 1 else 2)
  let high := 4 * x.mantissa + 2
  let inside (fromLow fromHigh : Ordering) : Bool :=
    (fromLow = .lt && fromHigh = .gt) ||
      (x.mantissa % 2 = 0 && fromLow ≠ .gt && fromHigh ≠ .lt)
  inside (compareScaled low quarter d.digits d.exponent)
    (compareScaled high quarter d.digits d.exponent)

/-- The largest point not above `x` on the grid of multiples of `10 ^ exponent`. -/
def Binary.floorOn (x : Binary) (exponent : Int) : Decimal where
  digits := x.mantissa * .pow 2 x.exponent.toNat * .pow 10 (-exponent).toNat /
    (.pow 10 exponent.toNat * .pow 2 (-x.exponent).toNat)
  exponent := exponent

/-- The point of a grid that stands for `x`, if one of the two around `x` does. -/
def Binary.pointOn? (x : Binary) (exponent : Int) : Option Decimal :=
  let below := x.floorOn exponent
  let above := { below with digits := below.digits + 1 }
  let nearerBelow :=
    compareScaled (2 * x.mantissa) x.exponent (2 * below.digits + 1) exponent = .lt
  match x.readsBack below, x.readsBack above with
  | true, true => some (if nearerBelow then below else above)
  | true, false => some below
  | false, true => some above
  | false, false => none

/-- The first grid with a point that stands for `x`, looking at `count` grids from `exponent`
downward. -/
def Binary.search (x : Binary) (exponent : Int) : Nat → Option Decimal
  | 0 => none
  | count + 1 => (x.pointOn? exponent).or (x.search (exponent - 1) count)

/-- An exponent whose grid is coarser than `x`. -/
def Binary.coarseExponent (x : Binary) : Int :=
  (x.mantissa.log2 + 1 + x.exponent) * 3 / 10 + 3

/-- The exact decimal value of `x`. -/
def Binary.exact (x : Binary) : Decimal where
  digits := x.mantissa * .pow 2 x.exponent.toNat * .pow 5 (-x.exponent).toNat
  exponent := -(-x.exponent).toNat

/-- The decimal with the fewest digits that stands for `x`, zero for zero. -/
def Binary.shortest (x : Binary) : Decimal :=
  if x.mantissa = 0 then
    { digits := 0, exponent := 0 }
  else
    (x.search x.coarseExponent 32).getD x.exact

/-- Writes a decimal in positional notation, with a point only before a fraction. -/
def render (d : Decimal) : String :=
  let digits := toString d.digits
  let places := (-d.exponent).toNat
  if 0 ≤ d.exponent then
    digits ++ String.ofList (List.replicate d.exponent.toNat '0')
  else if places < digits.length then
    String.ofList (digits.toList.take (digits.length - places)) ++ "." ++
      String.ofList (digits.toList.drop (digits.length - places))
  else
    "0." ++ String.ofList (List.replicate (places - digits.length) '0') ++ digits

/-- Writes a double with the fewest digits that read back to it, never with an exponent. -/
def positional : Float → String :=
  signed fun x => x.shortest.render

example : positional 0.1 = "0.1" := by decide +kernel

example : positional (-0.0) = "-0" := by decide +kernel

example : positional 1e23 = "100000000000000000000000" := by decide +kernel

end Decimal

end StreamQuery
