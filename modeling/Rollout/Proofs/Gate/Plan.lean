import Rollout.Proofs.Gate
import Rollout.Proofs.Plan

namespace Rollout.Job

section Gated

variable {job : Job} {gate : Gate} (hgate : job.gate? = some gate)
include hgate

theorem tolerance_of_gate? : job.tolerance = Gate.tolerance := by
  simp [tolerance, hgate]

theorem workingGraph_of_gate? (total : Graph) : job.workingGraph total = gate.graph := by
  simp [workingGraph, hgate]

theorem verdict_of_gate? (now : Instant) (feedstock : Feedstock) :
    job.verdict now feedstock = match job.screen feedstock with
      | some reason => .ok (.skip reason)
      | none => gate.verdict job.identity now feedstock := by
  unfold verdict
  cases job.screen feedstock with
  | some reason => rfl
  | none =>
      unfold gate? at hgate
      cases hk : job.kind with
      | bookkeeping => rw [hk] at hgate; cases hgate
      | swap pair => rw [hk] at hgate; cases hgate
      | wave name own => rw [hk] at hgate; cases hgate; rfl
      | platforms profile name own targets => rw [hk] at hgate; cases hgate; rfl

theorem verdict_eq_proceed_iff (now : Instant) (feedstock : Feedstock) :
    job.verdict now feedstock = .ok .proceed ↔
      job.screen feedstock = none ∧ gate.verdict job.identity now feedstock = .ok .proceed := by
  rw [verdict_of_gate? hgate]
  cases job.screen feedstock with
  | none => simp
  | some reason => simp

theorem mem_order_iff_of_gate? {now : Instant} {total : Graph} {plan : Plan}
    (h : job.plan now total = .ok plan) (name : String) :
    name ∈ plan.order ↔ ∃ feedstock, gate.graph.payload? name = some feedstock ∧
      job.screen feedstock = none ∧ gate.verdict job.identity now feedstock = .ok .proceed := by
  simp only [mem_order_of_plan h, judge_eq_ok_iff, verdict_eq_proceed_iff hgate,
    workingGraph_of_gate? hgate]

end Gated

section Ungated

variable {job : Job} (hgate : job.gate? = none)
include hgate

theorem workingGraph_of_gate?_eq_none (total : Graph) : job.workingGraph total = total := by
  simp [workingGraph, hgate]

-- Without a gate a verdict needs no graph and never fails.
theorem exists_verdict_of_gate?_eq_none (now : Instant) (feedstock : Feedstock) :
    ∃ verdict, job.verdict now feedstock = .ok verdict := by
  unfold verdict
  cases job.screen feedstock with
  | some reason => exact ⟨_, rfl⟩
  | none =>
      unfold gate? at hgate
      cases hk : job.kind with
      | bookkeeping => exact ⟨_, rfl⟩
      | swap pair => exact ⟨_, rfl⟩
      | wave name gate => rw [hk] at hgate; cases hgate
      | platforms profile name gate targets => rw [hk] at hgate; cases hgate

end Ungated

end Rollout.Job
