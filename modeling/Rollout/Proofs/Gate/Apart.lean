import Rollout.Proofs.Gate.Plan
import Rollout.Proofs.Wave.Safety

namespace Rollout

theorem Gate.not_exempt_ofGraph (graph : Graph) (name : String) : ¬ (ofGraph graph).Exempt name := by
  simp [Exempt, ofGraph]

theorem Gate.ignores_ofGraph (graph : Graph) (name dependency : String) :
    (ofGraph graph).ignores name dependency = false := by
  simp [ignores, ofGraph]

namespace Job

section Plan

variable {job : Job} {gate : Gate} (hgate : job.gate? = some gate) (hnamed : Wave.Named gate.graph)
  {now : Instant} {total : Graph} {plan : Plan} (hplan : job.plan now total = .ok plan)
include hgate hnamed hplan

-- Whoever is in the order has nothing on record, and so holds back those that wait for it.
theorem exempt_or_ignores_of_mem_order (source target : String)
    (he : gate.graph.Edge source target) (hs : source ∈ plan.order) (ht : target ∈ plan.order) :
    gate.Exempt target ∨ gate.ignores target source = true := by
  obtain ⟨upstream, hu, hscreen, -⟩ := (mem_order_iff_of_gate? hgate hplan source).mp hs
  obtain ⟨hactive, hf, -⟩ := (screen_eq_none_iff job upstream).mp hscreen
  obtain ⟨feedstock, hp, -, hverdict⟩ := (mem_order_iff_of_gate? hgate hplan target).mp ht
  obtain rfl := Wave.feedstockName_of_named hnamed hp
  by_contra hwaits
  obtain ⟨hexempt, hheeded⟩ := not_or.mp hwaits
  have ha : gate.Awaits feedstock.feedstockName source upstream :=
    ⟨he, hu, hactive, Bool.not_eq_true _ ▸ hheeded⟩
  exact Gate.not_proceed_of_find?_eq_none hexempt ha hf hverdict

end Plan

-- A plan holds no feedstock together with a dependency that it waits for, be it itself. Rebuilds
-- declare nothing, so their plans hold no two neighbours at all.
theorem order_keeps_dependents_apart (job : Job) (gate : Gate) (hgate : job.gate? = some gate)
    (now : Instant) (total : Graph) (hnamed : Wave.Named (job.workingGraph total)) :
    ∃ plan, job.plan now total = .ok plan ∧
      (∀ source target, (job.workingGraph total).Edge source target → source ∈ plan.order →
        target ∈ plan.order → gate.Exempt target ∨ gate.ignores target source = true) ∧
      ∀ profile own shared scope prLimit piggybacks,
        job = rebuild profile own shared scope prLimit piggybacks →
          ∀ source ∈ plan.order, ∀ target ∈ plan.order,
            ¬ (job.workingGraph total).Edge source target := by
  rw [workingGraph_of_gate? hgate] at hnamed ⊢
  obtain ⟨plan, hplan⟩ := exists_plan_of_gate? hgate now total (Wave.exists_payload?_of_named hnamed)
  have hapart := exempt_or_ignores_of_mem_order hgate hnamed hplan
  refine ⟨plan, hplan, hapart, ?_⟩
  rintro profile own shared scope prLimit piggybacks rfl source hs target ht he
  obtain rfl : Gate.ofGraph (shared.platformGraph profile scope) = gate := Option.some.inj hgate
  rcases hapart source target he hs ht with hexempt | hignored
  · exact Gate.not_exempt_ofGraph _ _ hexempt
  · cases (Gate.ignores_ofGraph _ _ _).symm.trans hignored

-- Of two feedstocks one of which depends on the other only the first one goes ahead.
theorem order_keeps_dependents_apart_chain :
    Wave.Named Wave.chain ∧ Wave.chain.Edge "a" "b" ∧
      ∃ plan, (Wave.plain.job Wave.chain).plan ⟨0, 0⟩ Wave.chain = .ok plan ∧ "a" ∈ plan.order ∧
        "b" ∉ plan.order := by
  have hnamed : Wave.Named Wave.chain := by decide
  have he : Wave.chain.Edge "a" "b" := by decide
  obtain ⟨plan, hplan, hapart, -⟩ := order_keeps_dependents_apart (Wave.plain.job Wave.chain) _ rfl
    ⟨0, 0⟩ Wave.chain hnamed
  have ha : "a" ∈ plan.order := (Job.mem_order_of_plan hplan "a").mpr rfl
  refine ⟨hnamed, he, plan, hplan, ha, fun hb => ?_⟩
  rcases hapart "a" "b" he ha hb with hexempt | hignored
  · exact absurd hexempt (by simp [Gate.Exempt, Wave.plain, Wave.gate])
  · cases hignored

end Job

end Rollout
