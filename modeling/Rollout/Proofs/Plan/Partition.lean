import Rollout.Proofs.Plan

namespace Rollout.Job

variable {job : Job} {now : Instant} {total : Graph} {plan : Plan}

section Plan

variable (h : job.plan now total = .ok plan)
include h

-- A plan comes about only if every candidate has a payload and gets a verdict.
theorem exists_judge_of_plan (name : String) (hm : name ∈ (job.workingGraph total).names) :
    ∃ verdict, job.judge now (job.workingGraph total) name = .ok verdict :=
  (job.exists_plan_iff now total).mp ⟨plan, h⟩ name hm

theorem not_mem_skipped_of_mem_order (name : String) (hm : name ∈ plan.order) :
    name ∉ plan.skipped := by
  rw [mem_order_of_plan h] at hm
  rw [mem_skipped_iff h]
  rintro ⟨reason, hs⟩
  cases hm.symm.trans hs

theorem mem_order_or_skipped_iff (name : String) :
    name ∈ plan.order ∨ name ∈ plan.skipped ↔ name ∈ (job.workingGraph total).names := by
  rw [mem_order_of_plan h, mem_skipped_iff h]
  constructor
  · rintro (hv | ⟨reason, hv⟩) <;> obtain ⟨feedstock, hp, -⟩ := (job.judge_eq_ok_iff _ _ _ _).mp hv <;>
      exact Graph.mem_names_of_payload? hp
  · intro hm
    obtain ⟨verdict, hv⟩ := exists_judge_of_plan h name hm
    cases verdict with
    | proceed => exact .inl hv
    | skip reason => exact .inr ⟨reason, hv⟩

-- Where a candidate ends up is what the job decides about its payload, and nothing else.
theorem placement_of_plan (name : String) (hm : name ∈ (job.workingGraph total).names) :
    ∃ feedstock verdict, (job.workingGraph total).payload? name = some feedstock ∧
      job.verdict now feedstock = .ok verdict ∧ (name ∈ plan.order ↔ verdict = .proceed) ∧
      ∀ reason, plan.skipped[name]? = some reason ↔ verdict = .skip reason := by
  obtain ⟨verdict, hv⟩ := exists_judge_of_plan h name hm
  obtain ⟨feedstock, hp, hd⟩ := (job.judge_eq_ok_iff _ _ _ _).mp hv
  refine ⟨feedstock, verdict, hp, hd, ?_, fun reason => ?_⟩
  · rw [mem_order_of_plan h, hv, Except.ok.injEq]
  · rw [skipped_eq_some_iff h, hv, Except.ok.injEq]

-- A replacement visits its feedstocks in the order of the graph's names.
theorem pairwise_order_of_swap {pair : Swap} (hkind : job.kind = .swap pair) :
    plan.order.Pairwise (· < ·) := by
  obtain ⟨entries, -, rfl⟩ := (job.plan_eq_ok_iff now total plan).mp h
  simp only [order, hkind]
  exact Graph.pairwise_names _

theorem batch_of_plan : plan.batch =
    if job.settings.prLimit = 0 then plan.order
    else plan.order.take (min job.settings.prLimit plan.order.length) := by
  rw [Plan.batch, prLimit_of_plan h, ← List.take_eq_take_min]

end Plan

-- A plan lists every candidate just once: in the order if the job lets it go ahead, and
-- otherwise among the skipped ones under the reason that the job gave.
theorem plan_partitions_candidates (job : Job) (now : Instant) (total : Graph) (plan : Plan)
    (h : job.plan now total = .ok plan) :
    plan.order.Nodup ∧
    (∀ name ∈ plan.order, name ∉ plan.skipped) ∧
    (∀ name, name ∈ plan.order ∨ name ∈ plan.skipped ↔
      (job.workingGraph total).contains name = true) ∧
    (∀ name, (job.workingGraph total).contains name = true →
      ∃ feedstock verdict, (job.workingGraph total).payload? name = some feedstock ∧
        job.verdict now feedstock = .ok verdict ∧ (name ∈ plan.order ↔ verdict = .proceed) ∧
        ∀ reason, plan.skipped[name]? = some reason ↔ verdict = .skip reason) ∧
    (∀ pair, job.kind = .swap pair → plan.order.Pairwise (· < ·)) ∧
    plan.batch =
      if job.settings.prLimit = 0 then plan.order
      else plan.order.take (min job.settings.prLimit plan.order.length) := by
  simp only [← Graph.mem_names]
  exact ⟨nodup_order_of_plan h, not_mem_skipped_of_mem_order h, mem_order_or_skipped_iff h,
    placement_of_plan h, fun _ => pairwise_order_of_swap h, batch_of_plan h⟩

-- Two of three feedstocks ask for the package that is to be replaced.
def asking (name package : String) : Feedstock :=
  { Feedstock.named name with requirements := ⟨∅, ∅, NameSet.ofList [package], ∅⟩ }

def shelf : Graph :=
  ((Graph.empty.add "c" (asking "c" "numpy")).add "b" (.named "b")).add "a" (asking "a" "numpy")

def replacement : Job :=
  ⟨{ Settings.ofVersion 0 with prLimit := 1 },
    .swap ⟨"numpy", "numpy-base", "", by decide, by decide, by decide⟩⟩

theorem plan_partitions_shelf :
    ∃ plan, replacement.plan ⟨0, 0⟩ shelf = .ok plan ∧ plan.order = ["a", "c"] ∧
      plan.batch = ["a"] ∧ plan.skipped["b"]? = some .requirementNotUsed := by
  have horder : (replacement.plan ⟨0, 0⟩ shelf).map Plan.order = .ok ["a", "c"] := by decide +kernel
  cases hplan : replacement.plan ⟨0, 0⟩ shelf with
  | error fault => rw [hplan] at horder; cases horder
  | ok plan =>
      rw [hplan] at horder
      obtain ⟨-, -, -, hplaced, -, hbatch⟩ :=
        plan_partitions_candidates replacement ⟨0, 0⟩ shelf plan hplan
      obtain ⟨feedstock, verdict, hp, hv, -, hskipped⟩ := hplaced "b" (by decide)
      obtain rfl : feedstock = .named "b" := (Option.some.inj hp).symm
      obtain rfl : verdict = .skip .requirementNotUsed := (Except.ok.inj hv).symm
      have horder : plan.order = ["a", "c"] := Except.ok.inj horder
      refine ⟨plan, rfl, horder, ?_, (hskipped _).mpr rfl⟩
      rw [hbatch, horder]
      rfl

end Rollout.Job
