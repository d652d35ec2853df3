import Rollout.Graph.Reach

namespace Rollout.Graph

-- A feedstock removed, with everything it depends on connected to everything that
-- depends on it.
-- A loop at it connects nothing.
def pluck (graph : Graph) (name : String) : Graph :=
  if graph.contains name then
    let sources := (graph.dependencies name).toList.filter (· != name)
    let targets := (graph.dependents name).toList.filter (· != name)
    sources.foldl (fun rest source =>
      targets.foldl (fun rest target => rest.connect source target) rest) (graph.remove name)
  else graph

def pluckAll (graph : Graph) (names : List String) : Graph := names.foldl pluck graph

-- The excluded feedstocks removed together with everything that depends on them.
def dropWithDescendants (graph : Graph) (excluded : NameSet) : Graph :=
  let doomed := excluded.toList.foldl (fun found name => found ∪ graph.descendants name) excluded
  (graph.pluckAll doomed.toList).removeLoops

-- Only the target feedstocks kept, together with everything they depend on.
def keepWithAncestors (graph : Graph) (targets : NameSet) : Graph :=
  let kept := targets.toList.foldl (fun found name => found ∪ graph.ancestors name) targets
  (graph.pluckAll (graph.names.filter fun name => !kept.contains name)).removeLoops

-- Names of stubs and of packages that belong to a toolchain.
def isStubby (name : String) : Bool :=
  "_stub".toList.isSuffixOf name.toList || "m2-".toList.isPrefixOf name.toList ||
    "m2w64-".toList.isPrefixOf name.toList || "__".toList.isPrefixOf name.toList

-- Whether a rebuild for a platform has nothing to do for a name.
def isIdle (graph : Graph) (ignored : NameSet) (name : String) : Bool :=
  match graph.payload? name with
  | none => true
  | some feedstock => isStubby name || ignored.contains name || feedstock.allNoarch

-- The names without payload, stubs, ignored names and platform-independent
-- feedstocks removed, their neighbours connected.
def dropIdle (graph : Graph) (ignored : NameSet) : Graph :=
  (graph.pluckAll (graph.names.filter (graph.isIdle ignored))).removeLoops

end Rollout.Graph
