import Rollout.Graph.Outputs
import Rollout.Graph.Prune
import Rollout.Profile

namespace Rollout

-- Which part of the graph a rebuild for new platforms covers.
structure PlatformScope where
  -- if not empty, only these packages and what they depend on
  targets : NameSet
  -- packages dropped with everything that depends on them
  excluded : NameSet
deriving DecidableEq

namespace PlatformScope

-- Targets always include the interpreter that most packages need.
def allTargets (scope : PlatformScope) : NameSet :=
  if scope.targets.isEmpty then scope.targets else scope.targets.insert "python"

end PlatformScope

namespace Graph

-- The graph with edges from the requirements of the profile's platforms in place of
-- its own.
def derive (total : Graph) (profile : Profile) : Graph :=
  total.names.foldl (fun derived name =>
    match total.payload? name with
    | none => derived
    | some feedstock =>
      profile.platforms.foldl (fun derived platform =>
        (total.outputs.resolve (profile.edgeRequirements feedstock platform)).toList.foldl
          (fun derived required => derived.connect required name) derived) derived)
    total.withoutEdges

-- The graph of a rebuild: derived from requirements, without the excluded packages,
-- cut to the targets, and without names that have nothing to do.
def platformGraph (total : Graph) (profile : Profile) (scope : PlatformScope) : Graph :=
  let kept := (total.derive profile).dropWithDescendants scope.excluded
  let targeted := if scope.targets.isEmpty then kept else kept.keepWithAncestors scope.allTargets
  targeted.dropIdle profile.ignoredPackages

end Graph

end Rollout
