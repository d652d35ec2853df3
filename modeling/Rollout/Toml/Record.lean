import Rollout.Names
import Rollout.Toml

namespace Rollout.Toml

-- The field values of a record, in the order of `fields`. A record is written as
-- a table or as an array of its first fields in order; further members and items are
-- ignored. A point in time counts as a table without any of the fields.
def record? (fields : List String) : Toml → Option (List (Option Toml))
  | .table members => some (fields.map fun name => members.lookup name)
  | .array items =>
    let given := items.take fields.length
    some (given.map some ++ List.replicate (fields.length - given.length) none)
  | .datetime _ => some (fields.map fun _ => none)
  | _ => none

def string? : Toml → Option String
  | .string value => some value
  | _ => none

def int64? : Toml → Option Int
  | .int value => some value
  | _ => none

-- A whole number from zero to below `bound`.
def nat? (bound : Nat) : Toml → Option Nat
  | .int value => if 0 ≤ value ∧ value.toNat < bound then some value.toNat else none
  | _ => none

def uint32? (value : Toml) : Option UInt32 := (value.nat? UInt32.size).map UInt32.ofNat

def uint64? (value : Toml) : Option UInt64 := (value.nat? UInt64.size).map UInt64.ofNat

def list? {α : Type} (decode : Toml → Option α) : Toml → Option (List α)
  | .array items => items.mapM decode
  | _ => none

def nameSet? (value : Toml) : Option NameSet := (value.list? string?).map NameSet.ofList

def entries? {α : Type} (decode : Toml → Option α) : Toml → Option (List (String × α))
  | .table members => members.mapM fun member => (decode member.2).map fun value => (member.1, value)
  | _ => none

-- A field with a default for when it is left out.
def orElse? {α : Type} (default : α) (decode : Toml → Option α) : Option Toml → Option α
  | none => some default
  | some value => decode value

-- One of several names: as a text, or as the only key of a table with nothing in it.
def choice? : Toml → Option String
  | .string name => some name
  | .table [(name, .table [])] => some name
  | .table [(name, .array [])] => some name
  | _ => none

end Rollout.Toml
