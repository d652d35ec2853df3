import Rollout.Binary64.Decimal
import Rollout.Text.Digits
import Rollout.Toml
import Rollout.Word

namespace Rollout.Toml

-- Further digits of some kind, with single underscores in front of them, and what
-- follows.
def moreDigits? (isDigit : Char → Bool) : List Char → Option (List Char × List Char)
  | '_' :: c :: rest =>
    if isDigit c then
      (moreDigits? isDigit rest).map fun (digits, rest) => (c :: digits, rest)
    else none
  | c :: rest =>
    if isDigit c then
      (moreDigits? isDigit rest).map fun (digits, rest) => (c :: digits, rest)
    else if c == '_' then none
    else some ([], c :: rest)
  | [] => some ([], [])

-- Digits of some kind with single underscores between them, and what follows.
def digits? (isDigit : Char → Bool) : List Char → Option (List Char × List Char)
  | c :: rest =>
    if isDigit c then
      (moreDigits? isDigit rest).map fun (digits, rest) => (c :: digits, rest)
    else none
  | [] => none

def isHexDigit (c : Char) : Bool := (hexValue? c).isSome

-- A whole number is within 64 bits.
def int? (value : Int) (rest : List Char) : Option (Toml × List Char) :=
  if -(Word.half : Int) ≤ value ∧ value < Word.half then some (.int value, rest) else none

def baseInt? (base : Nat) (isDigit : Char → Bool) (text : List Char) : Option (Toml × List Char) := do
  let (digits, rest) ← digits? isDigit text
  int? (← readBase? base digits : Nat) rest

-- The sign in front of a number and what follows it.
def sign (text : List Char) : Bool × List Char :=
  match text with
  | '-' :: rest => (true, rest)
  | '+' :: rest => (false, rest)
  | _ => (false, text)

-- The digits in front of a point or an exponent: no zero stands in front of others.
def wholeDigits? : List Char → Option (List Char × List Char)
  | '0' :: rest => some (['0'], rest)
  | text => digits? Char.isDigit text

def integer? (text : List Char) : Option (Toml × List Char) :=
  match text with
  | '0' :: 'x' :: rest => baseInt? 16 isHexDigit rest
  | '0' :: 'o' :: rest => baseInt? 8 (fun c => '0' ≤ c && c ≤ '7') rest
  | '0' :: 'b' :: rest => baseInt? 2 (fun c => c == '0' || c == '1') rest
  | _ =>
    let (negative, rest) := sign text
    (wholeDigits? rest).bind fun (digits, rest) =>
      let value : Int := readDecimal digits
      int? (if negative then -value else value) rest

-- An exponent after its letter, if there is one; none if its digits are wanting.
def exponent? (text : List Char) : Option (Option Int × List Char) :=
  match text with
  | c :: rest =>
    if c == 'e' || c == 'E' then
      let (negative, rest) := sign rest
      (digits? Char.isDigit rest).map fun (digits, rest) =>
        let value : Int := readDecimal digits
        (some (if negative then -value else value), rest)
    else some (none, text)
  | [] => some (none, [])

-- The digits after a point, if there is one.
def fraction? (text : List Char) : Option (Option (List Char) × List Char) :=
  match text with
  | '.' :: rest => (digits? Char.isDigit rest).map fun (digits, rest) => (some digits, rest)
  | _ => some (none, text)

-- A number with a fraction or an exponent, or one of the names of special numbers.
-- Numbers beyond the largest double are refused.
def float? (text : List Char) : Option (Toml × List Char) :=
  let (negative, rest) := sign text
  match rest with
  | 'i' :: 'n' :: 'f' :: rest =>
    some (.float (Binary64.ofMagnitude negative Binary64.infinity), rest)
  | 'n' :: 'a' :: 'n' :: rest => some (.float Binary64.nan, rest)
  | _ => do
    let (whole, rest) ← wholeDigits? rest
    let (fraction, rest) ← fraction? rest
    let (exponent, rest) ← exponent? rest
    guard (fraction.isSome || exponent.isSome)
    let value := Decimal.toBinary64 negative ⟨whole, fraction.getD [], exponent.getD 0⟩
    guard (negative || value.isFinite)
    return (.float value, rest)

-- A number of a fixed count of digits within bounds.
def field? (digits least most : Nat) (text : List Char) : Option (Nat × List Char) :=
  let written := text.take digits
  if written.length == digits && written.all Char.isDigit && least ≤ readDecimal written &&
      readDecimal written ≤ most then
    some (readDecimal written, text.drop digits)
  else none

def expect? (c : Char) : List Char → Option (List Char)
  | d :: rest => if c == d then some rest else none
  | [] => none

def isLeapYear (year : Nat) : Bool := year % 4 == 0 && (year % 100 != 0 || year % 400 == 0)

def daysOf (year month : Nat) : Nat :=
  if month == 2 then if isLeapYear year then 29 else 28
  else if [4, 6, 9, 11].contains month then 30
  else 31

-- What follows a date.
def date? (text : List Char) : Option (List Char) := do
  let (year, rest) ← field? 4 0 9999 text
  let (month, rest) ← field? 2 1 12 (← expect? '-' rest)
  let (_, rest) ← field? 2 1 (daysOf year month) (← expect? '-' rest)
  return rest

-- What follows a time of day.
def time? (text : List Char) : Option (List Char) := do
  let (_, rest) ← field? 2 0 23 text
  let (_, rest) ← field? 2 0 59 (← expect? ':' rest)
  let (_, rest) ← field? 2 0 60 (← expect? ':' rest)
  match rest with
  | '.' :: more =>
    let fraction := more.takeWhile Char.isDigit
    guard (!fraction.isEmpty)
    return more.drop fraction.length
  | _ => return rest

-- What follows the offset of a time zone; none if one starts but is wrong.
def offset? (text : List Char) : Option (List Char) :=
  match text with
  | c :: rest =>
    if c == 'Z' || c == 'z' then some rest
    else if c == '+' || c == '-' then do
      let (_, rest) ← field? 2 0 23 rest
      let (_, rest) ← field? 2 0 59 (← expect? ':' rest)
      return rest
    else some text
  | [] => some []

-- Whether a text goes on like a time of day, so that it has to be one.
def startsTime (text : List Char) : Bool :=
  match field? 2 0 23 text with
  | some (_, ':' :: _) => true
  | _ => false

-- What follows a date with or without a time, or a time.
def datetimeEnd? (text : List Char) : Option (List Char) :=
  match text with
  | _ :: _ :: ':' :: _ => time? text
  | _ =>
    match date? text with
    | none => none
    | some [] => some []
    | some (c :: rest) =>
      if (c == 'T' || c == 't' || c == ' ') && startsTime rest then (time? rest).bind offset?
      else some (c :: rest)

def datetime? (text : List Char) : Option (Toml × List Char) :=
  (datetimeEnd? text).map fun rest =>
    (.datetime (String.ofList (text.take (text.length - rest.length))), rest)

-- A number or a point in time. What starts like a date or a time is no number.
def number? (text : List Char) : Option (Toml × List Char) :=
  (datetime? text).or ((float? text).or (integer? text))

end Rollout.Toml
