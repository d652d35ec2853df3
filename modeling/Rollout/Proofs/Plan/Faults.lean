import Rollout.Proofs.Gate.Plan
import Rollout.Proofs.PlatformGraph.Extent

namespace Rollout.Job

variable {job : Job} {now : Instant} {total : Graph}

theorem verdict_eq_error_iff {feedstock : Feedstock} {fault : Fault} :
    job.verdict now feedstock = .error fault ↔
      job.screen feedstock = none ∧
        ∃ gate, job.gate? = some gate ∧ gate.verdict job.identity now feedstock = .error fault := by
  cases hgate : job.gate? with
  | none =>
      obtain ⟨verdict, hv⟩ := exists_verdict_of_gate?_eq_none hgate now feedstock
      simp [hv]
  | some gate =>
      rw [verdict_of_gate? hgate]
      cases job.screen feedstock <;> simp

-- Both the search through the candidates and the look at their dependencies stay inside the
-- working graph, so whichever of them fails does so over a name of it.
theorem unknown_of_judge {name : String} {fault : Fault}
    (hm : name ∈ (job.workingGraph total).names)
    (h : job.judge now (job.workingGraph total) name = .error fault) :
    ∃ unknown ∈ (job.workingGraph total).names,
      (job.workingGraph total).payload? unknown = none ∧ fault = .noPayload unknown := by
  cases hp : (job.workingGraph total).payload? name with
  | none =>
      rw [judge_of_payload?_eq_none hp] at h
      cases h
      exact ⟨name, hm, hp, rfl⟩
  | some feedstock =>
      rw [judge_of_payload? hp, verdict_eq_error_iff] at h
      obtain ⟨-, gate, hgate, hverdict⟩ := h
      obtain ⟨-, -, dependency, hfirst, rfl⟩ := (gate.verdict_eq_error_iff _ _ _ _).mp hverdict
      rw [workingGraph_of_gate? hgate]
      exact ⟨dependency, hfirst.edge.source_mem, hfirst.unknown, rfl⟩

theorem unknown_of_plan {fault : Fault} (h : job.plan now total = .error fault) :
    ∃ unknown ∈ (job.workingGraph total).names,
      (job.workingGraph total).payload? unknown = none ∧ fault = .noPayload unknown := by
  obtain ⟨before, name, after, hnames, hjudge, -⟩ :=
    (Entries.collect_eq_error_iff _ _ fault).mp ((job.plan_eq_error_iff now total fault).mp h)
  have hm : name ∈ (job.workingGraph total).names := by rw [hnames]; simp
  exact unknown_of_judge hm hjudge

theorem exists_plan_iff_known :
    (∃ plan, job.plan now total = .ok plan) ↔
      ∀ name ∈ (job.workingGraph total).names,
        ∃ feedstock, (job.workingGraph total).payload? name = some feedstock := by
  constructor
  · intro hplan name hm
    obtain ⟨verdict, hv⟩ := (job.exists_plan_iff now total).mp hplan name hm
    obtain ⟨feedstock, hp, -⟩ := (job.judge_eq_ok_iff now _ name verdict).mp hv
    exact ⟨feedstock, hp⟩
  · intro hknown
    cases hplan : job.plan now total with
    | ok plan => exact ⟨plan, rfl⟩
    | error fault =>
        obtain ⟨unknown, hm, hp, -⟩ := unknown_of_plan hplan
        obtain ⟨feedstock, hf⟩ := hknown unknown hm
        cases hp.symm.trans hf

-- With every payload known, planning never fails.
theorem exists_plan_of_gate? {gate : Gate} (hgate : job.gate? = some gate) (now : Instant)
    (total : Graph)
    (hknown : ∀ name ∈ gate.graph.names, ∃ feedstock, gate.graph.payload? name = some feedstock) :
    ∃ plan, job.plan now total = .ok plan := by
  rw [exists_plan_iff_known, workingGraph_of_gate? hgate]
  exact hknown

theorem exists_plan_of_gate?_eq_none (hgate : job.gate? = none) (now : Instant)
    (hknown : ∀ name ∈ total.names, ∃ feedstock, total.payload? name = some feedstock) :
    ∃ plan, job.plan now total = .ok plan := by
  rw [exists_plan_iff_known, workingGraph_of_gate?_eq_none hgate]
  exact hknown

-- Planning fails just where something is missing in the working graph, and says what. The graph
-- of a rebuild never misses anything.
theorem plan_fails_only_on_unknown (job : Job) (now : Instant) (total : Graph) :
    ((∃ plan, job.plan now total = .ok plan) ↔
      ∀ name ∈ (job.workingGraph total).names,
        ∃ feedstock, (job.workingGraph total).payload? name = some feedstock) ∧
    ((¬ ∀ name ∈ (job.workingGraph total).names,
        ∃ feedstock, (job.workingGraph total).payload? name = some feedstock) →
      ∃ unknown ∈ (job.workingGraph total).names,
        (job.workingGraph total).payload? unknown = none ∧
          job.plan now total = .error (.noPayload unknown)) ∧
    ∀ (profile : Profile) (own : Option String) (source : Graph) (scope : PlatformScope)
      (prLimit : Nat) (piggybacks : List Piggyback),
        ∃ plan, (rebuild profile own source scope prLimit piggybacks).plan now total = .ok plan := by
  refine ⟨exists_plan_iff_known, fun hunknown => ?_, ?_⟩
  · cases hplan : job.plan now total with
    | ok plan => exact absurd (exists_plan_iff_known.mp ⟨plan, hplan⟩) hunknown
    | error fault =>
        obtain ⟨unknown, hm, hp, rfl⟩ := unknown_of_plan hplan
        exact ⟨unknown, hm, hp, rfl⟩
  · intro profile own source scope prLimit piggybacks
    have hgate : (rebuild profile own source scope prLimit piggybacks).gate? =
        some (.ofGraph (source.platformGraph profile scope)) := rfl
    exact exists_plan_of_gate? hgate now total fun name hm =>
      source.exists_payload?_platformGraph profile scope hm

-- Nothing is known of `x`. The turn of `c`, which depends on it, comes first.
def lacking : Graph := (Graph.empty.add "c" (.named "c")).connect "x" "c"

def lackingJob : Job := ⟨.ofVersion 0, .wave none (.ofGraph lacking)⟩

theorem plan_fails_only_on_unknown_lacking :
    (¬ ∀ name ∈ (lackingJob.workingGraph .empty).names,
        ∃ feedstock, (lackingJob.workingGraph .empty).payload? name = some feedstock) ∧
      ∃ unknown ∈ (lackingJob.workingGraph .empty).names,
        (lackingJob.workingGraph .empty).payload? unknown = none ∧
          lackingJob.plan ⟨0, 0⟩ .empty = .error (.noPayload unknown) := by
  have hunknown : ¬ ∀ name ∈ (lackingJob.workingGraph .empty).names,
      ∃ feedstock, (lackingJob.workingGraph .empty).payload? name = some feedstock := by
    intro hknown
    obtain ⟨feedstock, hp⟩ := hknown "x" (by decide)
    have hnone : (lackingJob.workingGraph .empty).payload? "x" = none := by decide
    cases hp.symm.trans hnone
  exact ⟨hunknown, (plan_fails_only_on_unknown lackingJob ⟨0, 0⟩ .empty).2.1 hunknown⟩

end Rollout.Job
