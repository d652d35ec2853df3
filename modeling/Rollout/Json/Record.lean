import Rollout.Json
import Rollout.Names

namespace Rollout.Json

-- The field values of a record, in the order of `fields`; each field is given by
-- the keys it may have. A record is written as an object or as an array of its
-- first fields in order. A field given twice is refused, other keys are ignored.
def record? (fields : List (List String)) : Json → Option (List (Option Json))
  | .object members => fields.mapM fun keys =>
    match members.filter fun member => keys.contains member.1 with
    | [] => some none
    | [member] => some (some member.2)
    | _ => none
  | .array items =>
    if items.length ≤ fields.length then
      some (items.map some ++ List.replicate (fields.length - items.length) none)
    else none
  | _ => none

def string? : Json → Option String
  | .string value => some value
  | _ => none

def bool? : Json → Option Bool
  | .bool value => some value
  | _ => none

-- A whole number from zero to below `bound`.
def nat? (bound : Nat) : Json → Option Nat
  | .number (.int value) => if 0 ≤ value ∧ value.toNat < bound then some value.toNat else none
  | _ => none

def uint32? (value : Json) : Option UInt32 := (value.nat? UInt32.size).map UInt32.ofNat

-- A value or null.
def nullable? {α : Type} (decode : Json → Option α) : Json → Option (Option α)
  | .null => some none
  | value => (decode value).map some

def list? {α : Type} (decode : Json → Option α) : Json → Option (List α)
  | .array items => items.mapM decode
  | _ => none

def nameSet? (value : Json) : Option NameSet := (value.list? string?).map NameSet.ofList

-- The members of an object, each decoded, as they are written.
def entries? {α : Type} (decode : Json → Option α) : Json → Option (List (String × α))
  | .object members => members.mapM fun member => (decode member.2).map fun value => (member.1, value)
  | _ => none

-- A field with a default for when it is left out.
def orElse? {α : Type} (default : α) (decode : Json → Option α) : Option Json → Option α
  | none => some default
  | some value => decode value

def ofNames (names : NameSet) : Json := .array (names.toList.map .string)

def ofNat (n : Nat) : Json := .number (.int n)

end Rollout.Json
