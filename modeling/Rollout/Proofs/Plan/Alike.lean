import Rollout.Proofs.Graph.Alike
import Rollout.Proofs.Plan

namespace Rollout

namespace Graph

-- A walk looks at no more of a graph than its dependencies.
theorem walk_eq_of_dependencies {before after : Graph}
    (h : before.dependencies = after.dependencies) (stack : List Visit) (progress : Progress) :
    before.walk stack progress = after.walk stack progress := by
  have hvisit : before.visitOf = after.visitOf := by
    funext name
    rw [visitOf, visitOf, h]
  fun_induction Graph.walk before stack progress with
  | case1 progress => rw [walk]
  | case2 progress name outer ih => rw [ih, ← walk]
  | case3 progress name next pending outer hnext ih => rw [ih, hvisit, walk, dif_pos hnext]
  | case4 progress name next pending outer hnext ih => rw [ih, walk, dif_neg hnext]

namespace Alike

variable {R : Feedstock → Feedstock → Prop} {before after : Graph}

theorem restrict (h : Alike R before after) (names : NameSet) :
    Alike R (before.restrict names) (after.restrict names) where
  name n := by rw [mem_names_restrict, mem_names_restrict, h.name]
  edge a b := by rw [edge_restrict, edge_restrict, h.edge]
  payload n := by
    rw [payload?_restrict, payload?_restrict]
    split
    · exact h.payload n
    · exact .none
  outputs := h.outputs

theorem topLevel_eq (h : Alike R before after) : before.topLevel = after.topLevel := by
  rw [Graph.topLevel_eq, Graph.topLevel_eq, h.names_eq, h.dependencies_eq]

theorem schedule_eq (h : Alike R before after) (topLevel cycles : NameSet) :
    before.schedule topLevel cycles = after.schedule topLevel cycles := by
  have hcontains : before.contains = after.contains := funext h.contains_eq
  have hvisit : before.visit = after.visit := by
    funext progress name
    simp only [visit, visitOf, h.dependencies_eq, walk_eq_of_dependencies h.dependencies_eq]
  simp only [schedule, nameSet, hcontains, hvisit, h.names_eq]

end Alike

end Graph

namespace Job

variable {R : Feedstock → Feedstock → Prop} {before after : Graph}

-- The order of visits does not look at payloads.
theorem order_eq_of_alike (job : Job) (h : before.Alike R after) : job.order before = job.order after := by
  have hcontains : before.contains = after.contains := funext h.contains_eq
  unfold order
  cases job.kind with
  | bookkeeping => simp only [h.topLevel_eq, h.schedule_eq]
  | wave name gate => simp only [h.topLevel_eq, hcontains, h.schedule_eq]
  | swap pair => exact h.names_eq
  | platforms profile name gate targets => simp only [h.topLevel_eq, h.schedule_eq]

-- Jobs that judge every name alike, and order and limit alike, have the same plan for graphs
-- that differ in payloads alone.
theorem plan_congr {job other : Job} {now : Instant} {total changed : Graph}
    (h : (job.workingGraph total).Alike R (other.workingGraph changed))
    (hjudge : ∀ name, other.judge now (other.workingGraph changed) name =
      job.judge now (job.workingGraph total) name)
    (horder : other.order = job.order) (hlimit : other.settings.prLimit = job.settings.prLimit) :
    other.plan now changed = job.plan now total := by
  have hcollect : Entries.collect (other.judge now (other.workingGraph changed))
      (other.workingGraph changed).names =
      Entries.collect (job.judge now (job.workingGraph total)) (job.workingGraph total).names := by
    rw [funext hjudge, h.names_eq]
  cases hentries : Entries.collect (job.judge now (job.workingGraph total))
      (job.workingGraph total).names with
  | error fault =>
      exact ((other.plan_eq_error_iff ..).mpr (hcollect.trans hentries)).trans
        ((job.plan_eq_error_iff ..).mpr hentries).symm
  | ok entries =>
      rw [(job.plan_eq_ok_iff ..).mpr ⟨entries, hentries, rfl⟩]
      refine (other.plan_eq_ok_iff ..).mpr ⟨entries, hcollect.trans hentries, ?_⟩
      rw [horder, hlimit, job.order_eq_of_alike (h.restrict _)]

end Job

end Rollout
