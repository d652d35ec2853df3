import Rollout.Job

namespace Rollout

-- What a job is going to do: the eligible feedstocks in the order of their visits,
-- and the others with the reasons why not.
structure Plan where
  order : List String
  skipped : NameMap SkipReason
  prLimit : Nat

namespace Plan

-- The feedstocks of this run.
def batch (plan : Plan) : List String :=
  if plan.prLimit = 0 then plan.order else plan.order.take plan.prLimit

end Plan

namespace Job

-- The verdict on every feedstock of a graph, in the order of their names. Fails if
-- nothing is known of one.
def verdicts (job : Job) (now : Instant) (working : Graph) : Except Fault (List (String × Verdict)) :=
  working.names.mapM fun name => do
    let feedstock ← working.payload name
    let verdict ← job.verdict now feedstock
    return (name, verdict)

def skipReason? (entry : String × Verdict) : Option (String × SkipReason) :=
  match entry.2 with
  | .proceed => none
  | .skip reason => some (entry.1, reason)

-- A job's plan for the shared graph at a given time.
def plan (job : Job) (now : Instant) (total : Graph) : Except Fault Plan := do
  let working := job.workingGraph total
  let verdicts ← job.verdicts now working
  let eligible := (verdicts.filter fun entry => entry.2 == .proceed).map Prod.fst
  return {
    order := job.order (working.restrict (NameSet.ofList eligible))
    skipped := Std.ExtTreeMap.ofList (verdicts.filterMap skipReason?) compare
    prLimit := job.settings.prLimit }

end Job

end Rollout
