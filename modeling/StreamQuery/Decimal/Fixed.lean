import StreamQuery.Decimal.Binary

/-!
# Decimals with a fixed number of places

`fixed` rounds the exact value of a double to a number of places; a value halfway between two
candidates goes to the even one.
-/

namespace StreamQuery.Decimal

/-- The integer nearest to `numerator / denominator`, the even one of two that are equally near. -/
def roundDiv (numerator denominator : Nat) : Nat :=
  let quotient := numerator / denominator
  match compare (2 * (numerator % denominator)) denominator with
  | .lt => quotient
  | .eq => quotient + quotient % 2
  | .gt => quotient + 1

/-- The magnitude in units of the last of `places` places, rounded. -/
def Binary.scaled (x : Binary) (places : Nat) : Nat :=
  roundDiv (x.mantissa * .pow 2 x.exponent.toNat * .pow 10 places) (.pow 2 (-x.exponent).toNat)

/-- Writes a magnitude with `places` places after the point. -/
def Binary.fixed (places : Nat) (x : Binary) : String :=
  let digits := toString (x.scaled places)
  let padded := String.ofList (List.replicate (places + 1 - digits.length) '0') ++ digits
  if places = 0 then
    padded
  else
    String.ofList (padded.toList.take (padded.length - places)) ++ "." ++
      String.ofList (padded.toList.drop (padded.length - places))

/-- Writes a double with `places` places after the point. -/
def fixed (places : Nat) : Float → String :=
  signed (Binary.fixed places)

example : fixed 2 0.125 = "0.12" := by decide +kernel

example : fixed 1 1000 = "1000.0" := by decide +kernel

end StreamQuery.Decimal
