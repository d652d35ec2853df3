import Rollout.Feedstock.Document
import Rollout.Graph.Outputs
import Rollout.Json.Reader

namespace Rollout.Graph

-- What a snapshot of a graph holds. Of a name or an output given several times,
-- the last entry stays.
structure Snapshot where
  nodes : NameMap (Option Feedstock)
  edges : List (String × String)
  outputs : OutputTable

namespace Snapshot

def fields : List (List String) := [["nodes"], ["edges"], ["outputs_lut"]]

def shape : Json.Shape := .record (fields.zip [.table Feedstock.shape, .full, .full]) false

def edge? : Json → Option (String × String)
  | .array [.string source, .string target] => some (source, target)
  | _ => none

def nameMap? {α : Type} (decode : Json → Option α) (value : Json) : Option (NameMap α) :=
  (value.entries? decode).map fun entries => Std.ExtTreeMap.ofList entries compare

def ofJson? (value : Json) : Option Snapshot := do
  match ← value.record? fields with
  | [nodes, edges, outputs] =>
    return ⟨← Json.orElse? ∅ (nameMap? (Json.nullable? Feedstock.ofJson?)) nodes,
      ← Json.orElse? [] (Json.list? edge?) edges,
      ← Json.orElse? ∅ (nameMap? Json.nameSet?) outputs⟩
  | _ => none

-- The graph of a snapshot. Without an output table of its own, the table is made
-- from what the feedstocks declare.
def graph (snapshot : Snapshot) : Graph :=
  let graph := build snapshot.nodes.toList snapshot.edges
  graph.setOutputs
    (if snapshot.outputs.isEmpty then graph.declaredOutputs else snapshot.outputs)

end Snapshot

-- The graph that a snapshot's text holds.
def ofText (text : String) : Except Fault Graph :=
  match (Snapshot.shape.ofText? text).bind Snapshot.ofJson? with
  | some snapshot => .ok snapshot.graph
  | none => .error .notJson

end Rollout.Graph
