import Rollout.Binary64.Shortest

namespace Rollout

-- How a format writes the digits of a double.
structure Layout where
  -- exponents from `least` to `most` are written with a point and no exponent
  least : Int
  most : Int
  -- whether a positive exponent carries its sign
  plus : Bool

namespace Layout

def exponentText (layout : Layout) (exponent : Int) : List Char :=
  let digits := Nat.toDigits 10 exponent.natAbs
  if exponent < 0 then '-' :: digits
  else if layout.plus then '+' :: digits
  else digits

-- Digits with the point after the first `places + 1` of them, or in front of them
-- for a negative place, and with at least one digit on each side.
def positional (digits : List Char) (places : Int) : List Char :=
  if places < 0 then
    '0' :: '.' :: List.replicate (places.natAbs - 1) '0' ++ digits
  else
    let whole := places.toNat + 1
    let front := digits.take whole
    let back := digits.drop whole
    front ++ List.replicate (whole - front.length) '0' ++ '.' :: (if back.isEmpty then ['0'] else back)

def scientific (layout : Layout) (digits : List Char) (exponent : Int) : List Char :=
  match digits with
  | [] => []
  | first :: more =>
    first :: (if more.isEmpty then [] else '.' :: more) ++ 'e' :: layout.exponentText exponent

-- A finite double in this layout; zero is `0.0` and keeps its sign.
def render (layout : Layout) (x : Binary64) : String :=
  let sign := if x.isNegative then ['-'] else []
  let body :=
    if x.isZero then ['0', '.', '0']
    else
      let decimal := x.shortest
      if layout.least ≤ decimal.exponent ∧ decimal.exponent ≤ layout.most then
        positional decimal.digits decimal.exponent
      else layout.scientific decimal.digits decimal.exponent
  String.ofList (sign ++ body)

end Layout

end Rollout
