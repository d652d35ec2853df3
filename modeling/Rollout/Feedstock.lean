import Rollout.Feedstock.Record
import Rollout.Feedstock.Requirements
import Rollout.Feedstock.Standing

namespace Rollout

-- What the dependency graph knows about one feedstock.
structure Feedstock where
  name : String
  feedstockName : String
  branch : String
  archived : Bool
  parsingError : Bool
  requirements : Requirements
  standing : Standing
  -- the migrations attempted so far, oldest first
  attempts : List Attempt
  -- the feedstock's configuration file, as it is
  config : Json
  outputs : NameSet
  -- the rendered recipe, as it is
  rendered : Json
  -- everything else under its key, such as requirements of single platforms
  extra : NameMap Json
deriving DecidableEq

namespace Feedstock

-- A feedstock whose package has its name and of which nothing else is known.
def named (name : String) : Feedstock where
  name := name
  feedstockName := name
  branch := defaultBranch
  archived := false
  parsingError := false
  requirements := .empty
  standing := .good
  attempts := []
  config := .null
  outputs := ∅
  rendered := .null
  extra := ∅

def find? (feedstock : Feedstock) (identity : Identity) : Option Attempt :=
  findAttempt? feedstock.attempts identity

-- The requirements on one platform; none if there are none or they are malformed.
def platformRequirements? (feedstock : Feedstock) (platform : String) : Option Requirements :=
  (feedstock.extra[platform ++ "_requirements"]?).bind Requirements.ofJson?

-- Why a list of branches cannot be read.
inductive BranchFault where
  | notAList (value : Json)
  | notAName (entry : Json)
deriving Repr

def BranchFault.message : BranchFault → String
  | .notAList value => "expected a list, got " ++ value.compact
  | .notAName entry => "non-scalar branch entry " ++ entry.compact

-- The name of a branch. Numbers and truth values are names as well.
def branchName (entry : Json) : Except BranchFault String :=
  match entry with
  | .string name => .ok name
  | .number value => .ok (String.ofList (Json.numberText value))
  | .bool true => .ok "True"
  | .bool false => .ok "False"
  | entry => .error (.notAName entry)

-- The branches besides the default one that the configuration asks to migrate.
def extraBranches (feedstock : Feedstock) : Except BranchFault (List String) :=
  match (feedstock.config.member? "bot").bind (Json.member? "abi_migration_branches") with
  | none => .ok []
  | some .null => .ok []
  | some (.array entries) => entries.mapM branchName
  | some value => .error (.notAList value)

-- Whether a section of a rendered recipe is built once for all platforms.
def isNoarch (part : Json) : Bool :=
  match (part.member? "build").bind (Json.member? "noarch") with
  | none => false
  | some value => value != .null && value != .bool false && value != .string ""

-- Whether the recipe and all of its outputs are built once for all platforms.
def allNoarch (feedstock : Feedstock) : Bool :=
  isNoarch feedstock.rendered &&
    match feedstock.rendered.member? "outputs" with
    | some (.array outputs) => outputs.all isNoarch
    | _ => true

end Feedstock

end Rollout
