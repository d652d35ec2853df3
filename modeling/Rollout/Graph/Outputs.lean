import Rollout.Graph

namespace Rollout

namespace OutputTable

-- A producer added to those of an output.
def addProducer (table : OutputTable) (output producer : String) : OutputTable :=
  table.alter output fun
    | some producers => some (producers.insert producer)
    | none => some (NameSet.ofList [producer])

def producers (table : OutputTable) (output : String) : NameSet :=
  (table[output]?).getD ∅

-- The feedstocks behind required names. A name that the table does not know
-- stands for a feedstock of that name.
def resolve (table : OutputTable) (required : NameSet) : NameSet :=
  NameSet.ofList (required.toList.flatMap fun name =>
    match table[name]? with
    | some producers => producers.toList
    | none => [name])

end OutputTable

namespace Graph

def setOutputs (graph : Graph) (table : OutputTable) : Graph := { graph with outputs := table }

-- The output table that the feedstocks themselves declare.
def declaredOutputs (graph : Graph) : OutputTable :=
  graph.names.foldl (fun table name =>
    match graph.payload? name with
    | some feedstock =>
      feedstock.outputs.toList.foldl (fun table output => table.addProducer output name) table
    | none => table) ∅

end Graph

end Rollout
