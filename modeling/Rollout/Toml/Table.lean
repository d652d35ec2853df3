import Rollout.Toml

namespace Rollout.Toml

-- How a table came about: under a header of its own, on the way to another header, or
-- on the way to a key with points.
inductive Origin where
  | header
  | way
  | dotted
deriving DecidableEq, Repr

-- The member of a table while a document is read. A table that is a value is complete.
inductive Item where
  | value (value : Toml)
  | table (origin : Origin) (members : List (String × Item))
  | tables (tables : List (List (String × Item)))
deriving Inhabited

abbrev Members := List (String × Item)

namespace Members

-- A member replaced in its place, or added at the end.
def put (key : String) (item : Item) : Members → Members
  | [] => [(key, item)]
  | (k, old) :: rest => if k == key then (k, item) :: rest else (k, old) :: put key item rest

-- The tables with the last of them changed.
def changeLast? (change? : Members → Option Members) : List Members → Option (List Members)
  | [] => none
  | [last] => (change? last).map fun last => [last]
  | first :: rest => (changeLast? change? rest).map fun rest => first :: rest

-- The table that a header's path leads to changed. Tables that are missing on the way
-- are made, and of several tables the last is meant.
def within? (change? : Members → Option Members) : List String → Members → Option Members
  | [], members => change? members
  | key :: path, members =>
    match members.lookup key with
    | none =>
      (within? change? path []).map fun inner => members.put key (.table .way inner)
    | some (.table origin inner) =>
      (within? change? path inner).map fun inner => members.put key (.table origin inner)
    | some (.tables tables) =>
      (changeLast? (within? change? path) tables).map fun tables => members.put key (.tables tables)
    | some (.value _) => none

-- A value under a key. The keys in front of it lead through tables that other keys
-- with points have made, not through such as have a header.
def set? (key : String) (value : Toml) : List String → Members → Option Members
  | [], members =>
    if (members.lookup key).isSome then none else some (members.put key (.value value))
  | step :: path, members =>
    match members.lookup step with
    | none => (set? key value path []).map fun inner => members.put step (.table .dotted inner)
    | some (.table origin inner) =>
      if origin == .header || (path.isEmpty && origin != .dotted) then none
      else (set? key value path inner).map fun inner => members.put step (.table origin inner)
    | some (.tables tables) =>
      if path.isEmpty then none
      else
        (changeLast? (set? key value path) tables).map fun tables => members.put step (.tables tables)
    | some (.value _) => none

-- A table opened by its header, which may stand after those of tables inside it, but
-- only once.
def openTable? (key : String) (members : Members) : Option Members :=
  match members.lookup key with
  | none => some (members.put key (.table .header []))
  | some (.table .way inner) => some (members.put key (.table .header inner))
  | _ => none

-- One more table of several under a key.
def openTables? (key : String) (members : Members) : Option Members :=
  match members.lookup key with
  | none => some (members.put key (.tables [[]]))
  | some (.tables tables) => some (members.put key (.tables (tables ++ [[]])))
  | _ => none

end Members

mutual

def Item.toToml : Item → Toml
  | .value value => value
  | .table _ members => .table (membersToml members)
  | .tables tables => .array (tablesToml tables)

def membersToml : List (String × Item) → List (String × Toml)
  | [] => []
  | (key, item) :: rest => (key, item.toToml) :: membersToml rest

def tablesToml : List (List (String × Item)) → List Toml
  | [] => []
  | members :: rest => .table (membersToml members) :: tablesToml rest

end

end Rollout.Toml
