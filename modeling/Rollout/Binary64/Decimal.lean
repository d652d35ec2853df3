import Rollout.Binary64

namespace Rollout

-- The parts of a decimal number as it is written: the digits in front of the point
-- and behind it, and the exponent of ten.
structure Decimal where
  whole : List Char
  fraction : List Char
  exponent : Int
deriving DecidableEq, Repr

namespace Decimal

-- A whole number with an optional sign.
def exponent? (text : List Char) : Option Int :=
  let (negative, digits) := match text with
    | '-' :: rest => (true, rest)
    | '+' :: rest => (false, rest)
    | _ => (false, text)
  if digits.isEmpty || !digits.all Char.isDigit then none
  else
    let value : Int := digits.foldl (fun value c => value * 10 + (c.toNat - '0'.toNat)) 0
    some (if negative then -value else value)

-- Digits with a point among them, in front of them or behind them, and an exponent.
def ofText? (text : List Char) : Option Decimal :=
  let whole := text.takeWhile Char.isDigit
  let rest := text.drop whole.length
  let (fraction, rest) := match rest with
    | '.' :: more => (more.takeWhile Char.isDigit, more.dropWhile Char.isDigit)
    | _ => ([], rest)
  if whole.isEmpty && fraction.isEmpty then none
  else
    match rest with
    | [] => some ⟨whole, fraction, 0⟩
    | c :: more =>
      if c == 'e' || c == 'E' then (exponent? more).map fun exponent => ⟨whole, fraction, exponent⟩
      else none

-- The double nearest to a decimal number with a sign.
def toBinary64 (negative : Bool) (decimal : Decimal) : Binary64 :=
  Binary64.ofDecimal negative (decimal.whole ++ decimal.fraction)
    (decimal.exponent - decimal.fraction.length)

end Decimal

end Rollout
