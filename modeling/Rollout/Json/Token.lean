import Rollout.Json
import Rollout.Text.Digits
import Rollout.Word

namespace Rollout.Json

-- A number that is too large for a double and a string with half a surrogate pair
-- are written as they should be and denote nothing.
inductive Token where
  | openBrace
  | closeBrace
  | openBracket
  | closeBracket
  | colon
  | comma
  | null
  | bool (value : Bool)
  | number (value : Option Number)
  | string (text : Option String)
deriving DecidableEq, Repr

-- The blanks between tokens.
def isSpace (c : Char) : Bool := c == ' ' || c == '\n' || c == '\t' || c == '\r'

-- Four hexadecimal digits in front of a text.
def hexQuad? : List Char → Option (Nat × List Char)
  | a :: b :: c :: d :: rest => (readBase? 16 [a, b, c, d]).map fun code => (code, rest)
  | _ => none

def isHighSurrogate (code : Nat) : Bool := 0xD800 ≤ code && code < 0xDC00

def isLowSurrogate (code : Nat) : Bool := 0xDC00 ≤ code && code < 0xE000

-- The second half of a surrogate pair, in an escape of its own.
def lowHalf? : List Char → Option (Nat × List Char)
  | '\\' :: 'u' :: rest => (hexQuad? rest).filter fun half => isLowSurrogate half.1
  | _ => none

-- The character of a `\u` escape, after its `u`. A character beyond the first
-- plane takes two escapes; one half without the other denotes no character.
def unicodeEscape? (text : List Char) : Option (Option Char × List Char) :=
  match hexQuad? text with
  | none => none
  | some (code, rest) =>
    if isHighSurrogate code then
      match lowHalf? rest with
      | some (low, last) =>
        some (some (Char.ofNat (0x10000 + (code - 0xD800) * 0x400 + (low - 0xDC00))), last)
      | none => some (none, rest)
    else if isLowSurrogate code then some (none, rest)
    else some (some (Char.ofNat code), rest)

-- The character that an escape denotes, after its backslash.
def escape? : List Char → Option (Option Char × List Char)
  | '"' :: rest => some ('"', rest)
  | '\\' :: rest => some ('\\', rest)
  | '/' :: rest => some ('/', rest)
  | 'b' :: rest => some ('\x08', rest)
  | 'f' :: rest => some ('\x0c', rest)
  | 'n' :: rest => some ('\n', rest)
  | 'r' :: rest => some ('\r', rest)
  | 't' :: rest => some ('\t', rest)
  | 'u' :: rest => unicodeEscape? rest
  | _ => none

theorem hexQuad?_length (text : List Char) (code : Nat) (rest : List Char)
    (h : hexQuad? text = some (code, rest)) : rest.length < text.length := by
  unfold hexQuad? at h
  split at h
  · simp only [Option.map_eq_some_iff, Prod.mk.injEq] at h
    obtain ⟨_, _, _, hrest⟩ := h
    rw [← hrest]
    simp only [List.length_cons]
    omega
  · cases h

theorem lowHalf?_length (text : List Char) (low : Nat) (rest : List Char)
    (h : lowHalf? text = some (low, rest)) : rest.length < text.length := by
  unfold lowHalf? at h
  split at h
  · have hquad := hexQuad?_length _ _ _ (Option.filter_eq_some_iff.mp h).1
    simp only [List.length_cons]
    omega
  · cases h

theorem unicodeEscape?_length (text : List Char) (c : Option Char) (rest : List Char)
    (h : unicodeEscape? text = some (c, rest)) : rest.length < text.length := by
  unfold unicodeEscape? at h
  split at h
  · cases h
  · rename_i code first hquad
    have hfirst := hexQuad?_length _ _ _ hquad
    split at h
    · split at h
      · rename_i low last hlow
        have hlast := lowHalf?_length _ _ _ hlow
        cases h
        omega
      · cases h
        exact hfirst
    · split at h <;> (cases h; exact hfirst)

theorem escape?_length (text : List Char) (c : Option Char) (rest : List Char)
    (h : escape? text = some (c, rest)) : rest.length < text.length := by
  unfold escape? at h
  split at h
  case h_9 => exact Nat.lt_succ_of_lt (unicodeEscape?_length _ _ _ h)
  case h_10 => cases h
  all_goals
    simp only [Option.some.injEq, Prod.mk.injEq] at h
    rw [← h.2]
    simp

-- The characters of a string after its opening quote, and what follows its
-- closing quote. `read` holds the characters read so far, last first.
def stringBody? (read : List (Option Char)) (text : List Char) :
    Option (List (Option Char) × List Char) :=
  match text with
  | [] => none
  | '"' :: rest => some (read.reverse, rest)
  | '\\' :: more =>
    match _h : escape? more with
    | none => none
    | some (c, rest) => stringBody? (c :: read) rest
  | c :: rest => if c.toNat < 0x20 then none else stringBody? (some c :: read) rest
termination_by text.length
decreasing_by
  · have := escape?_length _ _ _ _h
    simp only [List.length_cons]
    omega
  · simp

theorem stringBody?_length (read : List (Option Char)) (text : List Char)
    (body : List (Option Char)) (rest : List Char)
    (h : stringBody? read text = some (body, rest)) : rest.length < text.length := by
  fun_induction stringBody? read text with
  | case1 => cases h
  | case2 read more =>
    simp only [Option.some.injEq, Prod.mk.injEq] at h
    rw [← h.2]
    simp
  | case3 => cases h
  | case4 read more c after he ih =>
    have hescape := escape?_length _ _ _ he
    have hrest := ih h
    simp only [List.length_cons]
    omega
  | case5 => cases h
  | case6 read c more _ _ _ ih =>
    have hrest := ih h
    simp only [List.length_cons]
    omega

-- The string that these characters make up; none if one of them is none.
def bodyText? (body : List (Option Char)) : Option String := (body.mapM id).map String.ofList

-- The largest whole number that keeps its digits.
def maxWhole : Nat := UInt64.size - 1

-- Digits taken into a significand while it stays below 2^64. From the first
-- digit that does not fit, the rest only count towards the exponent.
def wholeDigits (significand : Nat) : List Char → Nat × Nat
  | [] => (significand, 0)
  | c :: rest =>
    let next := significand * 10 + digitValue c
    if next ≤ maxWhole then wholeDigits next rest else (significand, rest.length + 1)

-- Digits after the point: each one taken lowers the exponent by one, and from the
-- first that does not fit, the rest are dropped.
def fractionDigits (significand : Nat) (taken : Nat) : List Char → Nat × Nat
  | [] => (significand, taken)
  | c :: rest =>
    let next := significand * 10 + digitValue c
    if next ≤ maxWhole then fractionDigits next (taken + 1) rest else (significand, taken)

-- The magnitude of a double divided by a power of ten, in steps of at most
-- `10 ^ 308`, the largest power that is a double.
def shrink (magnitude : Nat) (places : Nat) : Nat :=
  if places ≤ 308 then
    Binary64.overMagnitude magnitude (Binary64.magnitudeOfRatio (powerOfTen places) 1)
  else if magnitude = 0 then 0
  else
    let quotient := Binary64.overMagnitude magnitude (Binary64.magnitudeOfRatio (powerOfTen 308) 1)
    shrink quotient (places - 308)
termination_by places

-- A significand times a power of ten, computed in doubles: the significand and
-- the power are rounded first, their product or quotient after that. None if the
-- result is too large.
def scaled? (negative : Bool) (significand : Nat) (exponent : Int) : Option Binary64 :=
  let start := Binary64.magnitudeOfRatio significand 1
  if significand = 0 then some (Binary64.ofMagnitude negative 0)
  else if exponent < 0 then some (Binary64.ofMagnitude negative (shrink start exponent.natAbs))
  else if exponent > 308 then none
  else
    let result := Binary64.timesMagnitude start (Binary64.magnitudeOfRatio (powerOfTen exponent.toNat) 1)
    if result < Binary64.infinity then some (Binary64.ofMagnitude negative result) else none

-- The written parts of a number: sign, whole digits, fraction digits if there is
-- a point, exponent if there is one.
structure Numeral where
  negative : Bool
  whole : List Char
  fraction : Option (List Char)
  exponent : Option Int
deriving DecidableEq, Repr

-- The number a numeral denotes. Without point and exponent it is a whole number
-- if it lies between -2^63 and 2^64 - 1; minus zero is a double.
def Numeral.value? (numeral : Numeral) : Option Number :=
  let whole := wholeDigits 0 numeral.whole
  if numeral.fraction.isNone && numeral.exponent.isNone && whole.2 == 0 then
    if !numeral.negative then some (.int whole.1)
    else if 0 < whole.1 ∧ whole.1 ≤ Word.half then some (.int (-(whole.1 : Int)))
    else some (.float (Binary64.ofRatio true whole.1 1))
  else
    let all := fractionDigits whole.1 0 (numeral.fraction.getD [])
    let exponent : Int := (whole.2 : Int) - (all.2 : Int) + numeral.exponent.getD 0
    (scaled? numeral.negative all.1 exponent).map Number.float

-- The characters that occur in numerals. What follows a numeral in a document is
-- none of them, so a longest run of them is one numeral or none.
def isNumeralChar (c : Char) : Bool :=
  c.isDigit || c == '-' || c == '+' || c == '.' || c == 'e' || c == 'E'

def isDigits (text : List Char) : Bool := !text.isEmpty && text.all Char.isDigit

-- A number with an optional sign.
def signedDigits? (text : List Char) : Option Int :=
  match text with
  | '-' :: digits => if isDigits digits then some (-(readDecimal digits : Int)) else none
  | '+' :: digits => if isDigits digits then some (readDecimal digits) else none
  | digits => if isDigits digits then some (readDecimal digits) else none

-- A numeral has a whole part without leading zeros, then perhaps a point with at
-- least one digit after it, then perhaps an exponent.
def Numeral.ofText? (text : List Char) : Option Numeral := do
  let negative := text.head? == some '-'
  let unsigned := if negative then text.drop 1 else text
  let isMark := fun c : Char => c == 'e' || c == 'E'
  let decimal := unsigned.takeWhile (!isMark ·)
  let whole := decimal.takeWhile (· != '.')
  guard (isDigits whole && (whole.head? != some '0' || whole.length == 1))
  let fraction ← match decimal.dropWhile (· != '.') with
    | [] => some none
    | _ :: digits => if isDigits digits then some (some digits) else none
  let exponent ← match unsigned.dropWhile (!isMark ·) with
    | [] => some none
    | _ :: digits => (signedDigits? digits).map some
  return ⟨negative, whole, fraction, exponent⟩

-- The tokens of a text; none if some part of it is no token. `read` holds those
-- read so far, last first.
def tokens? (read : List Token) (text : List Char) : Option (List Token) :=
  match text with
  | [] => some read.reverse
  | '{' :: rest => tokens? (.openBrace :: read) rest
  | '}' :: rest => tokens? (.closeBrace :: read) rest
  | '[' :: rest => tokens? (.openBracket :: read) rest
  | ']' :: rest => tokens? (.closeBracket :: read) rest
  | ':' :: rest => tokens? (.colon :: read) rest
  | ',' :: rest => tokens? (.comma :: read) rest
  | 'n' :: 'u' :: 'l' :: 'l' :: rest => tokens? (.null :: read) rest
  | 't' :: 'r' :: 'u' :: 'e' :: rest => tokens? (.bool true :: read) rest
  | 'f' :: 'a' :: 'l' :: 's' :: 'e' :: rest => tokens? (.bool false :: read) rest
  | '"' :: more =>
    match _h : stringBody? [] more with
    | none => none
    | some (body, rest) => tokens? (.string (bodyText? body) :: read) rest
  | c :: more =>
    if isSpace c then tokens? read more
    else if isNumeralChar c then
      match Numeral.ofText? (c :: more.takeWhile isNumeralChar) with
      | none => none
      | some numeral => tokens? (.number numeral.value? :: read) (more.dropWhile isNumeralChar)
    else none
termination_by text.length
decreasing_by
  all_goals try (simp only [List.length_cons]; omega)
  · have := stringBody?_length _ _ _ _ _h
    simp only [List.length_cons]
    omega
  · have := (more.dropWhile_sublist isNumeralChar).length_le
    simp only [List.length_cons]
    omega

end Rollout.Json
