import Rollout.Binary64.Decimal
import Rollout.Text.Digits
import Rollout.Yaml
import Rollout.Word

namespace Rollout.Yaml

def nullWords : List String := ["null", "Null", "NULL", "~"]

def trueWords : List String := ["true", "True", "TRUE"]

def falseWords : List String := ["false", "False", "FALSE"]

def bool? (text : String) : Option Bool :=
  if trueWords.contains text then some true
  else if falseWords.contains text then some false
  else none

-- The sign in front of a number, if it has one.
def splitSign : List Char → Option Char × List Char
  | '-' :: rest => (some '-', rest)
  | '+' :: rest => (some '+', rest)
  | text => (none, text)

-- Digits that start with a zero too many spell no number.
def isZeroPadded (text : List Char) : Bool :=
  match (splitSign text).2 with
  | '0' :: rest => !rest.isEmpty && rest.all Char.isDigit
  | _ => false

-- Digits in some base, at least one of them.
def digitsIn? (base : Nat) (digits : List Char) : Option Nat :=
  if digits.isEmpty then none else readBase? base digits

-- The absolute value of a whole number, in the base that its start tells.
def magnitude? : List Char → Option Nat
  | '0' :: 'x' :: digits => digitsIn? 16 digits
  | '0' :: 'o' :: digits => digitsIn? 8 digits
  | '0' :: 'b' :: digits => digitsIn? 2 digits
  | digits => if isZeroPadded digits then none else digitsIn? 10 digits

def whole? (text : List Char) : Option Int :=
  let (sign, digits) := splitSign text
  (magnitude? digits).map fun value => if sign == some '-' then -(value : Int) else value

-- A double. Numbers beyond the largest one are not numbers.
def float? (text : List Char) : Option Binary64 :=
  let (sign, digits) := splitSign text
  let negative := sign == some '-'
  if [".inf", ".Inf", ".INF"].contains (String.ofList digits) then
    some (Binary64.ofMagnitude negative Binary64.infinity)
  else if [".nan", ".NaN", ".NAN"].contains (String.ofList text) then some Binary64.nan
  else ((Decimal.ofText? digits).map (Decimal.toBinary64 negative)).filter Binary64.isFinite

-- What a text spells that could be a whole number.
inductive Whole where
  | number (value : Int)
  -- a number of more than 64 bits, which no document may hold
  | refused
  | other

def wholeOf (text : List Char) : Whole :=
  match whole? text with
  | none => .other
  | some value =>
    if -(Word.half : Int) ≤ value ∧ value < UInt64.size then .number value
    else if -(Word.wideHalf : Int) ≤ value ∧ value < Word.wideSize then .refused
    else .other

-- The value that a plain scalar spells.
def plainValue? (text : List Char) : Option Yaml :=
  let string := String.ofList text
  if text.isEmpty || nullWords.contains string then some .null
  else
    match bool? string with
    | some value => some (.bool value)
    | none =>
      match wholeOf text with
      | .number value => some (.number (.int value))
      | .refused => none
      | .other =>
        if isZeroPadded text then some (.string string)
        else
          match float? text with
          | some value => some (.number (.float value))
          | none => some (.string string)

-- The tags that name a kind of scalar.
inductive ScalarKind where
  | null
  | bool
  | int
  | float
deriving DecidableEq, Repr

def scalarKind? (tag : String) : Option ScalarKind :=
  match tag with
  | "tag:yaml.org,2002:null" => some .null
  | "tag:yaml.org,2002:bool" => some .bool
  | "tag:yaml.org,2002:int" => some .int
  | "tag:yaml.org,2002:float" => some .float
  | _ => none

-- The value of a scalar that has to be of a kind.
def ScalarKind.value? (kind : ScalarKind) (text : List Char) : Option Yaml :=
  match kind with
  | .null => if nullWords.contains (String.ofList text) then some .null else none
  | .bool => (bool? (String.ofList text)).map .bool
  | .int =>
    match wholeOf text with
    | .number value => some (.number (.int value))
    | _ => none
  | .float => (float? text).map fun value => .number (.float value)

-- The value of a scalar without a tag of its own.
def untagged? (text : List Char) (plain : Bool) : Option Yaml :=
  if plain then plainValue? text else some (.string (String.ofList text))

-- The name of a tag that a document defines for itself: it starts with a mark, which
-- is no part of the name unless it is all of it.
def localName? (tag : List UInt8) : Option String :=
  let unmark := fun (bytes : List UInt8) =>
    if bytes.head? == some 0x21 && 1 < bytes.length then bytes.drop 1 else bytes
  if tag.head? == some 0x21 then String.fromUTF8? ⟨(unmark (unmark tag)).toArray⟩ else none

-- The value of a scalar with a tag that the document does not define for itself.
def tagged? (tag : List UInt8) (text : List Char) (plain : Bool) : Option Yaml :=
  if tag.head? == some 0x21 then untagged? text plain
  else
    match (String.fromUTF8? ⟨tag.toArray⟩).bind scalarKind? with
    | some kind => kind.value? text
    | none => some (.string (String.ofList text))

end Rollout.Yaml
