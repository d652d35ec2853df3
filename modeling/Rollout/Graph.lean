import Rollout.Fault
import Rollout.Graph.Coherence

namespace Rollout

-- For every output, the feedstocks that produce it.
abbrev OutputTable := NameMap NameSet

-- A directed graph of feedstocks. An edge leads from a feedstock to one that
-- depends on it, and is known at both of its ends.
structure Graph where
  vertices : Vertices
  outputs : OutputTable
  coherent : vertices.Coherent

namespace Graph

def empty : Graph := ⟨.empty, ∅, .empty⟩

-- The names of the graph's feedstocks, in ascending order.
def names (graph : Graph) : List String := graph.vertices.payloads.keys

def nameSet (graph : Graph) : NameSet := NameSet.ofList graph.names

def contains (graph : Graph) (name : String) : Bool := graph.vertices.payloads.contains name

-- The feedstocks that a feedstock depends on.
def dependencies (graph : Graph) (name : String) : NameSet := graph.vertices.dependencies name

-- The feedstocks that depend on a feedstock.
def dependents (graph : Graph) (name : String) : NameSet := graph.vertices.dependents name

def payload? (graph : Graph) (name : String) : Option Feedstock :=
  (graph.vertices.payloads[name]?).join

-- What is known of a feedstock that the graph refers to. That nothing is known
-- means that the graph is corrupt.
def payload (graph : Graph) (name : String) : Except Fault Feedstock :=
  match graph.payload? name with
  | some feedstock => .ok feedstock
  | none => .error (.noPayload name)

-- The edges in ascending order.
def edges (graph : Graph) : List (String × String) :=
  graph.vertices.downstream.toList.flatMap fun row => row.2.toList.map fun target => (row.1, target)

def size (graph : Graph) : Nat := graph.vertices.payloads.size

def edgeCount (graph : Graph) : Nat :=
  graph.vertices.downstream.toList.foldl (fun count row => count + row.2.size) 0

-- A name with what is known of it, replacing what was known before.
def add (graph : Graph) (name : String) (feedstock : Feedstock) : Graph :=
  { graph with
    vertices := graph.vertices.setPayload name feedstock
    coherent := graph.coherent.setPayload name feedstock }

-- A name of which nothing is known, unless it is in the graph already.
def addName (graph : Graph) (name : String) : Graph :=
  { graph with
    vertices := graph.vertices.ensure name
    coherent := graph.coherent.ensure name }

-- The edge from `source` to `target`; end points that are missing are added.
def connect (graph : Graph) (source target : String) : Graph :=
  { graph with
    vertices := graph.vertices.connect source target
    coherent := graph.coherent.connect source target }

def disconnect (graph : Graph) (source target : String) : Graph :=
  { graph with
    vertices := graph.vertices.disconnect source target
    coherent := graph.coherent.disconnect source target }

-- A name and every edge at it removed.
def remove (graph : Graph) (name : String) : Graph :=
  { graph with
    vertices := graph.vertices.remove name
    coherent := graph.coherent.remove name }

-- The feedstocks that depend on themselves.
def looped (graph : Graph) : List String :=
  (graph.vertices.downstream.toList.filter fun row => row.2.contains row.1).map Prod.fst

-- Every edge from a feedstock to itself removed.
def removeLoops (graph : Graph) : Graph :=
  graph.looped.foldl (fun rest name => rest.disconnect name name) graph

-- A name with what is known of it, which may be nothing.
def addNode (graph : Graph) (node : String × Option Feedstock) : Graph :=
  match node.2 with
  | some feedstock => graph.add node.1 feedstock
  | none => graph.addName node.1

-- The graph of these nodes and edges. End points that are no nodes are added.
def build (nodes : List (String × Option Feedstock)) (edges : List (String × String)) : Graph :=
  edges.foldl (fun graph edge => graph.connect edge.1 edge.2) (nodes.foldl addNode empty)

-- The same names and payloads without edges.
def withoutEdges (graph : Graph) : Graph :=
  { build graph.vertices.payloads.toList [] with outputs := graph.outputs }

-- The part of a graph on these names; names it does not have are passed over.
def restrict (graph : Graph) (names : NameSet) : Graph :=
  let kept := names.filter graph.contains
  let nodes := kept.toList.map fun name => (name, graph.payload? name)
  let edges := graph.edges.filter fun edge => kept.contains edge.1 && kept.contains edge.2
  { build nodes edges with outputs := graph.outputs }

-- The feedstocks that depend on nothing but perhaps themselves.
def topLevel (graph : Graph) : NameSet :=
  NameSet.ofList ((graph.vertices.upstream.toList.filter fun row =>
    row.2.isEmpty || row.2.size == 1 && row.2.contains row.1).map Prod.fst)

end Graph

end Rollout
