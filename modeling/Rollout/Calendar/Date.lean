namespace Rollout

-- A day of the proleptic Gregorian calendar; year zero comes before year one.
structure Date where
  year : Int
  month : Nat
  day : Nat
deriving DecidableEq, Repr

namespace Date

def isLeapYear (year : Int) : Bool :=
  year % 4 == 0 && (year % 100 != 0 || year % 400 == 0)

def monthLength (year : Int) (month : Nat) : Nat :=
  match month with
  | 2 => if isLeapYear year then 29 else 28
  | 4 | 6 | 9 | 11 => 30
  | _ => 31

def daysBeforeMonth (year : Int) : Nat → Nat
  | 0 => 0
  | 1 => 0
  | month + 2 => daysBeforeMonth year (month + 1) + monthLength year (month + 1)

-- Days from the first day of year zero to the first day of a year.
def daysBeforeYear (year : Int) : Int :=
  365 * year + (year + 3) / 4 - (year + 99) / 100 + (year + 399) / 400

-- The day number of 1970-01-01 counted from the first day of year zero.
def epoch : Int := daysBeforeYear 1970

-- Days since 1970-01-01, negative before it.
def dayNumber (date : Date) : Int :=
  daysBeforeYear date.year + daysBeforeMonth date.year date.month + date.day - 1 - epoch

-- The years that timestamps may fall in.
def leastYear : Int := -262143

def greatestYear : Int := 262142

def IsValid (date : Date) : Prop :=
  leastYear ≤ date.year ∧ date.year ≤ greatestYear ∧
  1 ≤ date.month ∧ date.month ≤ 12 ∧
  1 ≤ date.day ∧ date.day ≤ monthLength date.year date.month

instance (date : Date) : Decidable date.IsValid := by
  unfold IsValid
  infer_instance

end Date

end Rollout
