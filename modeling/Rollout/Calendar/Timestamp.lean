import Rollout.Calendar.Instant
import Rollout.Text.Blank
import Rollout.Text.Digits

namespace Rollout

-- A moment as it is written: a date, a time of day and an offset from UTC.
structure Timestamp where
  date : Date
  hour : Nat
  minute : Nat
  -- sixty is a leap second
  second : Nat
  nanos : Nat
  -- seconds that local time is ahead of UTC
  offset : Int
deriving DecidableEq, Repr

namespace Timestamp

def IsValid (stamp : Timestamp) : Prop :=
  stamp.date.IsValid ∧ stamp.hour ≤ 23 ∧ stamp.minute ≤ 59 ∧ stamp.second ≤ 60 ∧
  -86400 < stamp.offset ∧ stamp.offset < 86400

instance (stamp : Timestamp) : Decidable stamp.IsValid := by
  unfold IsValid
  infer_instance

-- The moment that a timestamp denotes.
def instant (stamp : Timestamp) : Instant :=
  let leap := stamp.second == 60
  let second := if leap then 59 else stamp.second
  ⟨stamp.date.dayNumber * Instant.secondsPerDay
      + (stamp.hour * 3600 + stamp.minute * 60 + second : Nat) - stamp.offset,
    if leap then stamp.nanos + Instant.nanosPerSecond else stamp.nanos⟩

-- The moment of a timestamp whose parts are in range and which has a date in UTC.
def instant? (stamp : Timestamp) : Option Instant :=
  if stamp.IsValid ∧ stamp.instant.IsDated then some stamp.instant else none

-- A number of `least` to `most` digits at the front of a text. Further digits are
-- left for what follows.
def number? (least most : Nat) (text : List Char) : Option (Nat × List Char) :=
  let digits := (text.take most).takeWhile Char.isDigit
  if digits.length < least then none
  else some (readDecimal digits, text.drop digits.length)

def mark? (mark : Char) : List Char → Option (List Char)
  | [] => none
  | c :: rest => if c = mark then some rest else none

def trimStart (text : List Char) : List Char := text.dropWhile isBlank

-- A fraction of a second; digits after the ninth are dropped.
def fraction? (text : List Char) : Option (Nat × List Char) :=
  let digits := text.takeWhile Char.isDigit
  if digits.isEmpty then none
  else
    let kept := digits.take 9
    some (readDecimal kept * powerOfTen (9 - kept.length), text.dropWhile Char.isDigit)

-- The signs of an offset; the last is the minus sign of typography.
def sign? : List Char → Option (Int × List Char)
  | '+' :: rest => some (1, rest)
  | '-' :: rest => some (-1, rest)
  | '\u2212' :: rest => some (-1, rest)
  | _ => none

-- A signed offset in hours and minutes, with `separator` between them.
def offset? (separator : List Char → Option (List Char)) (text : List Char) :
    Option (Int × List Char) := do
  let (sign, rest) ← sign? text
  let (hours, rest) ← number? 2 2 rest
  let rest ← separator rest
  let (minutes, rest) ← number? 2 2 rest
  guard (minutes ≤ 59)
  return (sign * (hours * 3600 + minutes * 60 : Nat), rest)

def zulu? : List Char → Option (Int × List Char)
  | 'Z' :: rest => some (0, rest)
  | 'z' :: rest => some (0, rest)
  | _ => none

-- A year: after a sign it may have any number of digits, without one at most four.
def year? (text : List Char) : Option (Int × List Char) :=
  match trimStart text with
  | '-' :: rest => (number? 1 rest.length rest).map fun found => (-(found.1 : Int), found.2)
  | '+' :: rest => (number? 1 rest.length rest).map fun found => ((found.1 : Int), found.2)
  | rest => (number? 1 4 rest).map fun found => ((found.1 : Int), found.2)

-- A number of one or two digits behind any white space.
def loose? (text : List Char) : Option (Nat × List Char) := number? 1 2 (trimStart text)

-- Date and time in the lenient forms, where numbers may be short, padded with
-- white space, and the years signed.
def lenient? (separator : List Char → Option (List Char)) (text : List Char) :
    Option (Timestamp × List Char) := do
  let (year, rest) ← year? text
  let rest ← mark? '-' rest
  let (month, rest) ← loose? rest
  let rest ← mark? '-' rest
  let (day, rest) ← loose? rest
  let rest ← separator rest
  let (hour, rest) ← loose? rest
  let rest ← mark? ':' rest
  let (minute, rest) ← loose? rest
  let rest ← mark? ':' rest
  let (second, rest) ← loose? rest
  return (⟨⟨year, month, day⟩, hour, minute, second, 0, 0⟩, rest)

-- The internet form: full width numbers, a `T` or a space between date and time,
-- an optional fraction, and an offset or `Z`.
def internet? (text : List Char) : Option Timestamp := do
  let (year, rest) ← number? 4 4 text
  let rest ← mark? '-' rest
  let (month, rest) ← number? 2 2 rest
  let rest ← mark? '-' rest
  let (day, rest) ← number? 2 2 rest
  let rest ← (mark? 'T' rest).or ((mark? 't' rest).or (mark? ' ' rest))
  let (hour, rest) ← number? 2 2 rest
  let rest ← mark? ':' rest
  let (minute, rest) ← number? 2 2 rest
  let rest ← mark? ':' rest
  let (second, rest) ← number? 2 2 rest
  let (nanos, rest) ← match rest with
    | '.' :: more => fraction? more
    | rest => some (0, rest)
  let (offset, rest) ← (zulu? rest).or (offset? (mark? ':') rest)
  guard rest.isEmpty
  return ⟨⟨year, month, day⟩, hour, minute, second, nanos, offset⟩

-- White space between date and time, and an offset behind optional white space,
-- whose hours and minutes may be apart by colons and white space or by nothing.
def spaced? (text : List Char) : Option Timestamp := do
  let (stamp, rest) ← lenient? (fun rest => some (trimStart rest)) text
  let (offset, rest) ← offset? (fun rest => some (rest.dropWhile fun c => c == ':' || isBlank c))
    (trimStart rest)
  guard rest.isEmpty
  return { stamp with offset := offset }

-- A lenient form without an offset, taken as UTC.
def naive? (separator : List Char → Option (List Char)) (text : List Char) : Option Timestamp := do
  let (stamp, rest) ← lenient? separator text
  guard rest.isEmpty
  return stamp

end Timestamp

-- The moment that a text denotes, in the first of the accepted forms that fits it.
def Instant.ofText? (text : String) : Option Instant :=
  let chars := text.toList
  ((Timestamp.internet? chars).bind Timestamp.instant?).or <|
  ((Timestamp.spaced? chars).bind Timestamp.instant?).or <|
  ((Timestamp.naive? (Timestamp.mark? 'T') chars).bind Timestamp.instant?).or <|
  (Timestamp.naive? (fun rest => some (Timestamp.trimStart rest)) chars).bind Timestamp.instant?

end Rollout
