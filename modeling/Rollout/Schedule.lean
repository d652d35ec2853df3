import Rollout.Graph.Reach

namespace Rollout

-- A name whose dependencies are being visited, with those still to be looked at in
-- ascending order.
structure Visit where
  name : String
  pending : List String
deriving Repr

-- How far a walk has come: the names not visited yet, and those that are done, the
-- last one first.
structure Progress where
  unvisited : NameSet
  done : List String

namespace Graph

def visitOf (graph : Graph) (name : String) : Visit := ⟨name, (graph.dependencies name).toList⟩

-- Steps and names that a stack of visits still holds.
def workload : List Visit → Nat
  | [] => 0
  | visit :: outer => visit.pending.length + 1 + workload outer

-- A walk over a stack of visits, innermost first. A name is done after everything
-- it depends on that was not visited before.
def walk (graph : Graph) (stack : List Visit) (progress : Progress) : Progress :=
  match stack with
  | [] => progress
  | ⟨name, []⟩ :: outer => graph.walk outer { progress with done := name :: progress.done }
  | ⟨name, next :: pending⟩ :: outer =>
    if _h : progress.unvisited.contains next then
      graph.walk (graph.visitOf next :: ⟨name, pending⟩ :: outer)
        { progress with unvisited := progress.unvisited.erase next }
    else graph.walk (⟨name, pending⟩ :: outer) progress
termination_by (progress.unvisited.size, workload stack)
decreasing_by
  · exact Prod.Lex.right _ (by simp [workload])
  · exact Prod.Lex.left _ _ (size_erase_lt_of_contains _ next _h)
  · exact Prod.Lex.right _ (by simp [workload])

-- A name and everything it depends on, unless it was visited before.
def visit (graph : Graph) (progress : Progress) (name : String) : Progress :=
  if progress.unvisited.contains name then
    graph.walk [graph.visitOf name] { progress with unvisited := progress.unvisited.erase name }
  else progress

-- Every name of the graph once, dependencies first as far as cycles allow. The walk
-- starts at the top-level names, goes on with the names on declared cycles and
-- ends with all others, each in ascending order.
def schedule (graph : Graph) (topLevel cycles : NameSet) : List String :=
  let seeds := (topLevel.toList ++ cycles.toList).filter graph.contains ++ graph.names
  (seeds.foldl graph.visit ⟨graph.nameSet, []⟩).done.reverse

end Graph

end Rollout
