namespace Descent.Decimal

-- The quotient rounded to an integer. A half goes to the even neighbour.
def roundDiv (num den : Nat) : Nat :=
  let below := num / den
  let twice := 2 * (num % den)
  if twice < den || (twice = den && below % 2 = 0) then below else below + 1

-- The exponent at which a positive quotient has a significand of 53 bits, but no less than the
-- one of the smallest doubles. The lengths of the two numbers give it or one more.
def exponentOf (num den : Nat) : Int :=
  let estimate : Int := (num.log2 : Int) - den.log2 - 52
  let significand := num * Nat.pow 2 (-estimate).toNat / (den * Nat.pow 2 estimate.toNat)
  max (if significand < Nat.pow 2 52 then estimate - 1 else estimate) (-1074)

-- The bits of the double nearest to a positive quotient, the even one of two that are as near.
-- A carry out of the significand moves into the exponent field by itself; what does not fit is
-- infinite.
def nearestBits (num den : Nat) : Nat :=
  let exponent := exponentOf num den
  let significand := roundDiv (num * Nat.pow 2 (-exponent).toNat) (den * Nat.pow 2 exponent.toNat)
  min ((exponent + 1074).toNat * Nat.pow 2 52 + significand) (2047 * Nat.pow 2 52)

-- The double nearest to a quotient. Zero keeps its sign.
def nearest (negative : Bool) (num den : Nat) : Float :=
  let magnitude := if num = 0 then 0 else nearestBits num den
  Float.ofBits (UInt64.ofNat (magnitude + if negative then Nat.pow 2 63 else 0))

-- The double nearest to an integer.
def ofInt (n : Int) : Float := nearest (n < 0) n.natAbs 1

-- The double nearest to `digits` times a power of ten. Powers far beyond the range are not
-- computed: their result is zero or infinite whatever the digits. The length of the digits tells,
-- since ten lies between the third and the fourth power of two.
def ofScaled (negative : Bool) (digits : Nat) (exponent : Int) : Float :=
  let length : Int := digits.log2
  if digits = 0 || length / 3 + exponent < -400 then nearest negative 0 1
  else if 400 < length / 4 + exponent then nearest negative (Nat.pow 2 1024) 1
  else nearest negative (digits * Nat.pow 10 exponent.toNat) (Nat.pow 10 (-exponent).toNat)

end Descent.Decimal
