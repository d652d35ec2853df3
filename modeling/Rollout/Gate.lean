import Rollout.Graph
import Rollout.Verdict

namespace Rollout

-- What a job that waits for dependencies goes by.
structure Gate where
  graph : Graph
  -- feedstocks that wait for nothing
  topLevel : NameSet
  -- feedstocks on declared cycles, which wait for nothing either
  cycles : NameSet
  -- for a feedstock, the dependencies that it does not wait for
  ignored : NameMap NameSet
  -- nanoseconds after which an open pull request counts as stale
  window : Int
  -- the feedstock that may go ahead of stale dependencies
  pinning : String

namespace Gate

def defaultWindow : Int := 14 * 86400 * Instant.nanosPerSecond

def defaultPinning : String := "conda-forge-pinning"

def ofGraph (graph : Graph) : Gate := ⟨graph, ∅, ∅, ∅, defaultWindow, defaultPinning⟩

-- Reasons for being bad that do not hold back a job with a gate.
def tolerance : Tolerance := .startingWith ["Upstream:"]

def ignores (gate : Gate) (name dependency : String) : Bool :=
  match gate.ignored[name]? with
  | some names => names.contains dependency
  | none => false

-- The dependencies of a feedstock with what is known of them. Fails at the first one of
-- which nothing is known.
def dependencies (gate : Gate) (name : String) : Except Fault (List (String × Feedstock)) :=
  (gate.graph.dependencies name).toList.mapM fun dependency =>
    (gate.graph.payload dependency).map fun feedstock => (dependency, feedstock)

-- The dependencies that a feedstock waits for: neither archived nor ignored.
def gating (gate : Gate) (name : String) : Except Fault (List Feedstock) :=
  (gate.dependencies name).map fun entries =>
    (entries.filter fun entry => !entry.2.archived && !gate.ignores name entry.1).map Prod.snd

-- Whether a dependency has no closed or merged pull request for its identity. Gaps
-- in what is known count as open.
def isPending (identify : Feedstock → Identity) (dependency : Feedstock) : Bool :=
  match dependency.find? (identify dependency) with
  | none => true
  | some attempt => attempt.isOpen

-- Whether a dependency has a pull request for its identity that is closed, merged,
-- or open for at least the window. One without a known time is never stale.
def isStale (gate : Gate) (identify : Feedstock → Identity) (now : Instant)
    (dependency : Feedstock) : Bool :=
  match dependency.find? (identify dependency) with
  | none => false
  | some attempt =>
    !attempt.isOpen ||
      match attempt.createdAt? with
      | none => false
      | some created => now.elapsed created ≥ gate.window

-- Whether some dependency still has to be migrated.
def notYetBuilt (gate : Gate) (identify : Feedstock → Identity) (name : String) :
    Except Fault Bool :=
  (gate.gating name).map fun waited => waited.any (isPending identify)

-- Whether every dependency has at least been attempted and nobody is looking after it.
def issuedAndStale (gate : Gate) (identify : Feedstock → Identity) (now : Instant)
    (name : String) : Except Fault Bool :=
  (gate.gating name).map fun waited => waited.all (gate.isStale identify now)

def isPinning (gate : Gate) (feedstock : Feedstock) : Bool :=
  feedstock.name == gate.pinning || feedstock.feedstockName == gate.pinning

-- The verdict on a feedstock that nothing else rules out.
def verdict (gate : Gate) (identify : Feedstock → Identity) (now : Instant)
    (feedstock : Feedstock) : Except Fault Verdict :=
  let name := feedstock.feedstockName
  if !gate.graph.contains name then .ok (.skip .notInGraph)
  else if gate.topLevel.contains name || gate.cycles.contains name then .ok .proceed
  else do
    let stale ←
      if gate.isPinning feedstock then gate.issuedAndStale identify now name else .ok false
    if stale then return .proceed
    let pending ← gate.notYetBuilt identify name
    return if pending then .skip .predecessorsNotBuilt else .proceed

end Gate

end Rollout
