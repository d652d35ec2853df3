namespace Rollout

def digitValue (c : Char) : Nat := c.toNat - '0'.toNat

-- The number that decimal digits spell; nothing spells zero.
def readDecimal (digits : List Char) : Nat :=
  digits.foldl (fun value c => value * 10 + digitValue c) 0

def powerOfTen (places : Nat) : Nat := Nat.pow 10 places

-- The value of a digit in any base up to sixteen, in either case.
def hexValue? (c : Char) : Option Nat :=
  if c.isDigit then some (digitValue c)
  else if 'a' ≤ c ∧ c ≤ 'f' then some (c.toNat - 'a'.toNat + 10)
  else if 'A' ≤ c ∧ c ≤ 'F' then some (c.toNat - 'A'.toNat + 10)
  else none

-- The number that digits spell in a base; none if one of them is not a digit of it.
def readBase? (base : Nat) : List Char → Option Nat
  | digits => digits.foldlM (fun value c =>
      match hexValue? c with
      | some digit => if digit < base then some (value * base + digit) else none
      | none => none) 0

-- The digits of a number written with at least `width` places.
def padDecimal (width n : Nat) : List Char :=
  let digits := Nat.toDigits 10 n
  List.replicate (width - digits.length) '0' ++ digits

def hexDigit (n : Nat) : Char := Nat.digitChar (n % 16)

end Rollout
