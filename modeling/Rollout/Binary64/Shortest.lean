import Rollout.Binary64
import Rollout.Text.Digits

namespace Rollout

-- A positive decimal in scientific form: a first digit, a point, the other
-- digits, and a power of ten.
structure Scientific where
  digits : List Char
  exponent : Int
deriving DecidableEq, Repr

namespace Binary64

-- The largest exponent of ten that is at most `num / den`, for a quotient
-- that a double can take.
def floorLog10 (num den : Nat) : Int :=
  if num ≥ den then ((Nat.toDigits 10 (num / den)).length : Int) - 1
  else match (List.range 400).find? fun k => num * powerOfTen k ≥ den with
    | some k => -(k : Int)
    | none => -400

-- Whether `digits * 10 ^ exponent` is read as the double with this magnitude.
def readsBack (magnitude digits : Nat) (exponent : Int) : Bool :=
  magnitudeOfDecimal digits (Nat.toDigits 10 digits).length exponent == magnitude

-- On the grid of multiples of `10 ^ exponent`, the neighbour of the double that
-- reads back as it: the nearer one if both do, the even one on a tie.
def gridPoint? (magnitude num den : Nat) (exponent : Int) : Option Nat :=
  let scaled := scaleDecimal num den exponent
  let below := scaled.1 / scaled.2
  let rest := scaled.1 % scaled.2
  match readsBack magnitude below exponent, readsBack magnitude (below + 1) exponent with
  | true, true => some (roundHalfEven scaled.1 scaled.2)
  | true, false => some below
  | false, true => some (below + 1)
  | false, false => if rest = 0 then some below else none

-- Trailing zeros dropped, keeping at least one digit.
def trimZeros (digits : List Char) : List Char :=
  match (digits.reverse.dropWhile (· == '0')).reverse with
  | [] => ['0']
  | kept => kept

-- The fewest digits that read back as this positive finite double, and of those
-- the nearest to it. Seventeen digits always suffice.
def shortest (x : Binary64) : Scientific :=
  let magnitude := x.magnitude
  let quotient := x.ratio
  let top := floorLog10 quotient.1 quotient.2
  let found := (List.range 17).findSome? fun (n : Nat) =>
    let exponent := top - (n : Int)
    (gridPoint? magnitude quotient.1 quotient.2 exponent).map fun point => (point, exponent)
  match found with
  | some (point, exponent) =>
    let digits := Nat.toDigits 10 point
    ⟨trimZeros digits, exponent + digits.length - 1⟩
  | none => ⟨['0'], 0⟩

end Binary64

end Rollout
