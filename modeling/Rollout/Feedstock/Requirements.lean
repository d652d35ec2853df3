import Rollout.Json.Draft
import Rollout.Json.Record

namespace Rollout

-- The packages a recipe asks for, by section.
structure Requirements where
  build : NameSet
  host : NameSet
  run : NameSet
  test : NameSet
deriving DecidableEq

namespace Requirements

def empty : Requirements := ⟨∅, ∅, ∅, ∅⟩

def all (requirements : Requirements) : NameSet :=
  requirements.build ∪ requirements.host ∪ requirements.run ∪ requirements.test

def hostAndRun (requirements : Requirements) : NameSet := requirements.host ∪ requirements.run

-- Whether some section asks for one of these packages.
def mentions (requirements : Requirements) (names : NameSet) : Bool :=
  requirements.all.toList.any fun name => names.contains name

def fields : List (List String) := [["build"], ["host"], ["run"], ["test"]]

-- What is under another key is passed over.
def shape : Json.Shape := .record (fields.map fun keys => (keys, .full)) false

def ofJson? (value : Json) : Option Requirements := do
  match ← value.record? fields with
  | [build, host, run, test] =>
    let section? := Json.orElse? ∅ Json.nameSet?
    return ⟨← section? build, ← section? host, ← section? run, ← section? test⟩
  | _ => none

def toJson (requirements : Requirements) : Json :=
  .object [("build", .ofNames requirements.build), ("host", .ofNames requirements.host),
    ("run", .ofNames requirements.run), ("test", .ofNames requirements.test)]

end Requirements

end Rollout
