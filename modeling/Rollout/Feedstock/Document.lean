import Rollout.Feedstock

namespace Rollout.Feedstock

-- The keys of a feedstock's document that have a meaning of their own.
def knownKeys : List String :=
  ["name", "feedstock_name", "branch", "archived", "parsing_error", "requirements", "pr_info",
   "conda-forge.yml", "outputs_names", "meta_yaml"]

def historyFields : List (List String) := [["bad"], ["PRed"]]

def historyShape : Json.Shape :=
  .record (historyFields.zip [.full, .list Attempt.shape]) false

def shapeOf : String → Json.Shape
  | "requirements" => Requirements.shape
  | "pr_info" => historyShape
  | _ => .full

-- What is under other keys is kept, so all of it is read.
def shape : Json.Shape := .record (knownKeys.map fun key => ([key], shapeOf key)) true

-- The standing of a feedstock and the migrations attempted so far.
def history? (value : Json) : Option (Standing × List Attempt) := do
  match ← value.record? historyFields with
  | [standing, attempts] =>
    return (match standing with
      | none => .good
      | some value => Standing.ofJson value.canonical,
      ← Json.orElse? [] (Json.list? Attempt.ofJson?) attempts)
  | _ => none

def canonicalOrNull : Option Json → Json
  | none => .null
  | some value => value.canonical

def truthyOrFalse : Option Json → Bool
  | none => false
  | some value => value.canonical.truthy

-- The members that have no meaning of their own; the last of several under a key
-- stays.
def extraMembers (members : List (String × Json)) : NameMap Json :=
  let others := members.filter fun member => !knownKeys.contains member.1
  Std.ExtTreeMap.ofList (others.map fun member => (member.1, member.2.canonical)) compare

-- A feedstock is always written as an object.
def ofJson? (value : Json) : Option Feedstock :=
  match value with
  | .object members => do
    match ← value.record? (knownKeys.map fun key => [key]) with
    | [name, feedstockName, branch, archived, parsingError, requirements, history, config, outputs,
        rendered] =>
      let past ← Json.orElse? (.good, []) history? history
      return {
        name := ← Json.orElse? "" Json.string? name
        feedstockName := ← Json.orElse? "" Json.string? feedstockName
        branch := ← Json.orElse? defaultBranch Json.string? branch
        archived := truthyOrFalse archived
        parsingError := truthyOrFalse parsingError
        requirements := ← Json.orElse? .empty Requirements.ofJson? requirements
        standing := past.1
        attempts := past.2
        config := canonicalOrNull config
        outputs := ← Json.orElse? ∅ Json.nameSet? outputs
        rendered := canonicalOrNull rendered
        extra := extraMembers members }
    | _ => none
  | _ => none

def toJson (feedstock : Feedstock) : Json :=
  .object ([("name", .string feedstock.name),
    ("feedstock_name", .string feedstock.feedstockName),
    ("branch", .string feedstock.branch),
    ("archived", .bool feedstock.archived),
    ("parsing_error", .bool feedstock.parsingError),
    ("requirements", feedstock.requirements.toJson),
    ("pr_info", .object [("bad", feedstock.standing.toJson),
      ("PRed", .array (feedstock.attempts.map Attempt.toJson))]),
    ("conda-forge.yml", feedstock.config),
    ("outputs_names", .ofNames feedstock.outputs),
    ("meta_yaml", feedstock.rendered)] ++ feedstock.extra.toList)

end Rollout.Feedstock
