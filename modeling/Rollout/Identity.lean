import Rollout.Json.Writer
import Rollout.Json.Record

namespace Rollout

-- The branch every feedstock has.
def defaultBranch : String := "main"

-- The names that are read as the default branch.
def defaultBranchNames : List String := ["main", "master"]

-- The name in an identity. Jobs that exist once leave it out; jobs that may exist
-- several times carry one, which is null for an unnamed instance.
inductive Stamp where
  | absent
  | null
  | named (name : String)
deriving DecidableEq, Repr, Inhabited

namespace Stamp

def ofOption : Option String → Stamp
  | none => .null
  | some name => .named name

def toJson? : Stamp → Option Json
  | .absent => none
  | .null => some .null
  | .named name => some (.string name)

def ofJson? (value : Json) : Option Stamp := (value.nullable? Json.string?).map ofOption

end Stamp

-- The fingerprint of one migration of one feedstock branch. A feedstock that
-- carries a record with it is not migrated again.
structure Identity where
  migratorName : String
  migratorVersion : UInt32
  rerun : Bool
  objectVersion : Option UInt32
  branch : Option String
  stamp : Stamp
deriving DecidableEq, Repr, Inhabited

namespace Identity

-- The identity of a job on a branch. Object version zero counts as none, and the
-- default branch is left out.
def make (migratorName : String) (migratorVersion : UInt32) (objectVersion : Option UInt32)
    (branch : Option String) (stamp : Stamp) : Identity where
  migratorName := migratorName
  migratorVersion := migratorVersion
  rerun := false
  objectVersion := objectVersion.filter (· != 0)
  branch := branch.filter fun name => !defaultBranchNames.contains name
  stamp := stamp

-- A member that is left out when there is no value.
def optional (key : String) : Option Json → List (String × Json)
  | none => []
  | some value => [(key, value)]

-- The members of an identity in ascending order of their keys.
def members (identity : Identity) : List (String × Json) :=
  [("bot_rerun", .bool identity.rerun)] ++
  optional "branch" (identity.branch.map .string) ++
  [("migrator_name", .string identity.migratorName)] ++
  optional "migrator_object_version" (identity.objectVersion.map fun v => .ofNat v.toNat) ++
  [("migrator_version", .ofNat identity.migratorVersion.toNat)] ++
  optional "name" identity.stamp.toJson?

def toJson (identity : Identity) : Json := .object identity.members

def keys (identity : Identity) : List String := identity.members.map Prod.fst

-- The text of an identity; equal texts mean equal identities.
def canonicalText (identity : Identity) : String := identity.toJson.compact

-- The fields of a written identity, in order.
def fields : List (List String) :=
  [["migrator_name"], ["migrator_version"], ["bot_rerun"], ["migrator_object_version"],
   ["branch"], ["name"]]

def ofJson? (value : Json) : Option Identity := do
  match ← value.record? fields with
  | [some migratorName, some migratorVersion, rerun, objectVersion, branch, stamp] =>
    return {
      migratorName := ← migratorName.string?
      migratorVersion := ← migratorVersion.uint32?
      rerun := ← Json.orElse? false Json.bool? rerun
      objectVersion := ← Json.orElse? none (Json.nullable? Json.uint32?) objectVersion
      branch := ← Json.orElse? none (Json.nullable? Json.string?) branch
      stamp := ← Json.orElse? .absent Stamp.ofJson? stamp }
  | _ => none

end Identity

end Rollout
