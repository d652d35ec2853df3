import Rollout.Text.Digits

namespace Rollout

-- A double precision number, given by its sign, exponent and fraction bits.
structure Binary64 where
  bits : UInt64
deriving DecidableEq, Repr, Inhabited

namespace Binary64

-- The bit of the sign.
def signBit : Nat := 0x8000000000000000

-- The lowest bit of the exponent, just above those of the fraction.
def exponentBit : Nat := 0x10000000000000

-- The bits of positive infinity, above those of every finite magnitude.
def infinity : Nat := 0x7FF0000000000000

-- The quotient `num / den` scaled down by `2 ^ exponent`, as a quotient.
def scaleBinary (num den : Nat) (exponent : Int) : Nat × Nat :=
  if 0 ≤ exponent then (num, den <<< exponent.toNat) else (num <<< (-exponent).toNat, den)

-- The whole number nearest to `num / den`; a half goes to the even neighbour.
def roundHalfEven (num den : Nat) : Nat :=
  let whole := num / den
  let rest := num % den
  if 2 * rest > den ∨ (2 * rest = den ∧ whole % 2 = 1) then whole + 1 else whole

-- The largest exponent of two that is at most `num / den`, for positive numbers.
def floorLog2 (num den : Nat) : Int :=
  let guess : Int := (num.log2 : Int) - (den.log2 : Int)
  let scaled := scaleBinary num den guess
  if scaled.1 ≥ scaled.2 then guess else guess - 1

-- The magnitude bits of the double nearest to `num / den`, ties to even. Beyond
-- the largest finite double this is infinity.
def magnitudeOfRatio (num den : Nat) : Nat :=
  if num = 0 then 0
  else
    let unit := max (floorLog2 num den - 52) (-1074)
    let scaled := scaleBinary num den unit
    -- subnormal numbers share their unit with the smallest normal ones, so
    -- a carry out of the fraction lands in the exponent field by itself
    min infinity ((unit + 1074).toNat * exponentBit + roundHalfEven scaled.1 scaled.2)

def ofMagnitude (negative : Bool) (magnitude : Nat) : Binary64 :=
  ⟨(if negative then signBit + magnitude else magnitude).toUInt64⟩

def ofRatio (negative : Bool) (num den : Nat) : Binary64 :=
  ofMagnitude negative (magnitudeOfRatio num den)

def isNegative (x : Binary64) : Bool := x.bits.toNat ≥ signBit

def magnitude (x : Binary64) : Nat := x.bits.toNat % signBit

def isZero (x : Binary64) : Bool := x.magnitude == 0

def isInfinite (x : Binary64) : Bool := x.magnitude == infinity

def isNaN (x : Binary64) : Bool := x.magnitude > infinity

def isFinite (x : Binary64) : Bool := x.magnitude < infinity

def nan : Binary64 := ⟨0x7FF8000000000000⟩

-- Equality of doubles as numbers: the two zeros agree. Unlike in arithmetic a
-- NaN agrees with a NaN, so that it is an equivalence.
def sameNumber (x y : Binary64) : Bool :=
  x == y || (x.isZero && y.isZero) || (x.isNaN && y.isNaN)

-- The absolute value of a finite double as an exact quotient.
def ratio (x : Binary64) : Nat × Nat :=
  let field := x.magnitude / exponentBit
  let fraction := x.magnitude % exponentBit
  let significand := if field = 0 then fraction else fraction + exponentBit
  let unit : Int := (max field 1 : Nat) - 1075
  if 0 ≤ unit then (significand <<< unit.toNat, 1) else (significand, 1 <<< (-unit).toNat)

-- The quotient `num / den` scaled down by `10 ^ exponent`, as a quotient.
def scaleDecimal (num den : Nat) (exponent : Int) : Nat × Nat :=
  if 0 ≤ exponent then (num, den * powerOfTen exponent.toNat)
  else (num * powerOfTen (-exponent).toNat, den)

-- The magnitude bits of the double nearest to `digits * 10 ^ exponent`. The
-- bounds keep the powers of ten small: `digits` has `length` places, so its value
-- is below `10 ^ length`.
def magnitudeOfDecimal (digits : Nat) (length : Nat) (exponent : Int) : Nat :=
  if digits = 0 then 0
  else if exponent > 400 then infinity
  else if exponent + length < -400 then 0
  else
    let quotient := scaleDecimal digits 1 (-exponent)
    magnitudeOfRatio quotient.1 quotient.2

-- The double nearest to the decimal with these digits, sign and exponent of ten.
def ofDecimal (negative : Bool) (digits : List Char) (exponent : Int) : Binary64 :=
  let value := digits.foldl (fun value c => value * 10 + (c.toNat - '0'.toNat)) 0
  ofMagnitude negative (magnitudeOfDecimal value digits.length exponent)

-- Product and quotient of absolute values, rounded; both operands are finite.
def timesMagnitude (x y : Nat) : Nat :=
  let a := ratio (ofMagnitude false x)
  let b := ratio (ofMagnitude false y)
  magnitudeOfRatio (a.1 * b.1) (a.2 * b.2)

def overMagnitude (x y : Nat) : Nat :=
  let a := ratio (ofMagnitude false x)
  let b := ratio (ofMagnitude false y)
  magnitudeOfRatio (a.1 * b.2) (a.2 * b.1)

end Binary64

end Rollout
