import Rollout.Feedstock
import Rollout.Graph.Adjacency

namespace Rollout

-- What is known of the names of a graph, and their neighbours in both directions. The three maps
-- are kept apart.
structure Vertices where
  payloads : NameMap (Option Feedstock)
  upstream : Adjacency
  downstream : Adjacency

namespace Vertices

def empty : Vertices := ⟨∅, ∅, ∅⟩

def dependencies (vertices : Vertices) (name : String) : NameSet := vertices.upstream.neighbours name

def dependents (vertices : Vertices) (name : String) : NameSet := vertices.downstream.neighbours name

-- Every edge is known at both of its ends, and each map has the same names.
structure Coherent (vertices : Vertices) : Prop where
  mirror : ∀ source target, target ∈ vertices.dependents source ↔ source ∈ vertices.dependencies target
  upstream : ∀ name, name ∈ vertices.upstream ↔ name ∈ vertices.payloads
  downstream : ∀ name, name ∈ vertices.downstream ↔ name ∈ vertices.payloads

-- A name without payload and neighbours, unless it is there.
def ensure (vertices : Vertices) (name : String) : Vertices where
  payloads := vertices.payloads.alter name fun payload => some (payload.getD none)
  upstream := vertices.upstream.ensure name
  downstream := vertices.downstream.ensure name

-- A name with this payload. The neighbours of one that is there stay.
def setPayload (vertices : Vertices) (name : String) (payload : Feedstock) : Vertices :=
  let ensured := vertices.ensure name
  { ensured with payloads := ensured.payloads.insert name (some payload) }

def connect (vertices : Vertices) (source target : String) : Vertices :=
  let ensured := (vertices.ensure source).ensure target
  { ensured with
    downstream := ensured.downstream.link source target
    upstream := ensured.upstream.link target source }

def disconnect (vertices : Vertices) (source target : String) : Vertices :=
  { vertices with
    downstream := vertices.downstream.unlink source target
    upstream := vertices.upstream.unlink target source }

-- The rows of a name are taken out one after the other, and its neighbours on that side forget it.
def remove (vertices : Vertices) (name : String) : Vertices :=
  let sources := vertices.upstream.neighbours name
  let downstream := vertices.downstream.unlinkAll sources.toList name
  let targets := downstream.neighbours name
  let upstream := Adjacency.unlinkAll (vertices.upstream.erase name) targets.toList name
  ⟨vertices.payloads.erase name, upstream, downstream.erase name⟩

end Vertices

end Rollout
