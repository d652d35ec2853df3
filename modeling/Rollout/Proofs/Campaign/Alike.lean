import Rollout.Proofs.Campaign
import Rollout.Proofs.Gate.OnGraph
import Rollout.Proofs.Plan.Alike

namespace Rollout.Campaign

variable {R : Feedstock → Feedstock → Prop} {before after : Graph}

theorem tolerance_job (campaign : Campaign) (graph other : Graph) :
    (campaign.job graph).tolerance = (campaign.job other).tolerance := by
  cases campaign <;> simp only [job, Wave.job, Job.rebuild, Job.tolerance, Job.gate?]

theorem order_job (campaign : Campaign) (graph other : Graph) :
    (campaign.job graph).order = (campaign.job other).order := by
  funext eligible
  cases campaign <;> simp only [job, Wave.job, Wave.gate, Job.rebuild, Job.order, Gate.ofGraph]

theorem prLimit_job (campaign : Campaign) (graph other : Graph) :
    (campaign.job graph).settings.prLimit = (campaign.job other).settings.prLimit := by
  cases campaign <;> simp only [job, Wave.job, Job.rebuild]

-- Of its records a feedstock is screened by nothing but whether the job's identity is among them.
theorem screen_of_attempts (campaign : Campaign) (before after : Graph) (feedstock : Feedstock)
    (attempts : List Attempt)
    (hfound : (findAttempt? attempts (campaign.identity feedstock)).isSome =
      (feedstock.find? (campaign.identity feedstock)).isSome) :
    (campaign.job after).screen { feedstock with attempts := attempts } =
      (campaign.job before).screen feedstock := by
  have hidentity : campaign.identity { feedstock with attempts := attempts } =
      campaign.identity feedstock := rfl
  rw [Job.screen, Job.screen, campaign.identity_job, campaign.identity_job,
    campaign.tolerance_job after before, hidentity, Feedstock.find?, hfound]

section Recipes

variable (hR : ∀ before after, R before after → before.SameRecipe after) (h : before.Alike R after)
include hR h

theorem alike_workingGraph_of_sameRecipe (campaign : Campaign) :
    ((campaign.job before).workingGraph before).Alike R ((campaign.job after).workingGraph after) := by
  cases campaign with
  | bookkeeping settings => exact h
  | wave own => exact h
  | swap settings pair => exact h
  | platforms profile name scope prLimit piggybacks => exact h.platformGraph hR profile scope

-- Feedstocks that are screened alike get one answer, unless a gate has to look at the graphs.
theorem verdict_cases (campaign : Campaign) (now : Instant) {feedstock other : Feedstock}
    (hscreen : (campaign.job after).screen other = (campaign.job before).screen feedstock)
    (hrequirements : feedstock.requirements = other.requirements) :
    (campaign.job after).verdict now other = (campaign.job before).verdict now feedstock ∨
      ∃ (gate : Gate) (graph : Graph), gate.graph.Alike R graph ∧
        (campaign.job before).verdict now feedstock =
          gate.verdict campaign.identity now feedstock ∧
        (campaign.job after).verdict now other =
          (gate.onGraph graph).verdict campaign.identity now other := by
  have halike := alike_workingGraph_of_sameRecipe hR h campaign
  have hbefore := campaign.identity_job before
  have hafter := campaign.identity_job after
  rw [Job.verdict, Job.verdict, hscreen, hbefore, hafter]
  cases (campaign.job before).screen feedstock with
  | some reason => exact .inl rfl
  | none =>
      cases campaign with
      | bookkeeping settings => exact .inl rfl
      | wave own => exact .inr ⟨own.gate before, after, halike, rfl, rfl⟩
      | swap settings pair =>
          left
          simp only [job, hrequirements]
      | platforms profile name scope prLimit piggybacks =>
          exact .inr ⟨.ofGraph (before.platformGraph profile scope),
            after.platformGraph profile scope, halike, rfl, rfl⟩

end Recipes

end Rollout.Campaign
