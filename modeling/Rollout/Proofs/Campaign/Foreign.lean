import Rollout.Proofs.Campaign.Alike
import Rollout.Proofs.Wave.Safety

namespace Rollout

-- Records of one kind put anywhere among the records of a list.
inductive Interspersed (foreign : Attempt → Prop) : List Attempt → List Attempt → Prop where
  | nil : Interspersed foreign [] []
  | kept (attempt : Attempt) {before after : List Attempt} :
      Interspersed foreign before after → Interspersed foreign (attempt :: before) (attempt :: after)
  | inserted (attempt : Attempt) {before after : List Attempt} (hforeign : foreign attempt) :
      Interspersed foreign before after → Interspersed foreign before (attempt :: after)

namespace Interspersed

theorem refl (foreign : Attempt → Prop) (attempts : List Attempt) :
    Interspersed foreign attempts attempts := by
  induction attempts with
  | nil => exact .nil
  | cons attempt attempts ih => exact .kept attempt ih

-- What is not the identity's record is passed over by the search for it.
theorem findAttempt?_eq {identity : Identity} {before after : List Attempt}
    (h : Interspersed (fun attempt => attempt.data ≠ identity.toJson) before after) :
    findAttempt? after identity = findAttempt? before identity := by
  unfold findAttempt?
  induction h with
  | nil => rfl
  | kept attempt _ ih => rw [List.find?_cons, List.find?_cons, ih]
  | inserted attempt hforeign _ ih =>
      have hmatches : attempt.matchesIdentity identity = false := by
        rw [← Bool.not_eq_true, attempt.matchesIdentity_iff]
        exact hforeign
      rw [List.find?_cons, hmatches]
      exact ih

end Interspersed

namespace Feedstock

-- Records of other jobs have been put among those of a feedstock. All else is as it was.
def Overlaid (identify : Feedstock → Identity) (before after : Feedstock) : Prop :=
  ∃ attempts,
    Interspersed (fun attempt => attempt.data ≠ (identify before).toJson) before.attempts attempts ∧
      after = { before with attempts := attempts }

theorem Overlaid.refl (identify : Feedstock → Identity) (feedstock : Feedstock) :
    feedstock.Overlaid identify feedstock :=
  ⟨feedstock.attempts, .refl _ _, rfl⟩

theorem Overlaid.sameRecipe {identify : Feedstock → Identity} {before after : Feedstock}
    (h : before.Overlaid identify after) : before.SameRecipe after := by
  obtain ⟨attempts, -, rfl⟩ := h
  exact ⟨rfl, rfl, rfl⟩

end Feedstock

namespace Campaign

variable (campaign : Campaign) {before after : Graph}

section Payload

variable {feedstock overlaid : Feedstock} (h : feedstock.Overlaid campaign.identity overlaid)
include h

theorem sameUpstream_of_overlaid : feedstock.SameUpstream campaign.identity overlaid := by
  obtain ⟨attempts, hattempts, rfl⟩ := h
  exact ⟨rfl, hattempts.findAttempt?_eq.symm⟩

theorem screen_of_overlaid (before after : Graph) :
    (campaign.job after).screen overlaid = (campaign.job before).screen feedstock := by
  obtain ⟨attempts, hattempts, rfl⟩ := h
  apply campaign.screen_of_attempts before after
  rw [hattempts.findAttempt?_eq, Feedstock.find?]

end Payload

variable (h : before.Alike (Feedstock.Overlaid campaign.identity) after)
include h

theorem verdict_of_overlaid (now : Instant) {feedstock overlaid : Feedstock}
    (hoverlaid : feedstock.Overlaid campaign.identity overlaid) :
    (campaign.job after).verdict now overlaid = (campaign.job before).verdict now feedstock := by
  have hscreen := campaign.screen_of_overlaid hoverlaid before after
  rcases verdict_cases (fun _ _ => Feedstock.Overlaid.sameRecipe) h campaign now hscreen
    hoverlaid.sameRecipe.requirements with he | ⟨gate, graph, halike, hbefore, hafter⟩
  · exact he
  · rw [hbefore, hafter]
    obtain ⟨hname, hpinning⟩ : overlaid.feedstockName = feedstock.feedstockName ∧
        gate.isPinning overlaid = gate.isPinning feedstock := by
      obtain ⟨attempts, -, rfl⟩ := hoverlaid
      exact ⟨rfl, rfl⟩
    apply Gate.verdict_onGraph_eq halike now hname hpinning
    intro dependency upstream other _ hp ho
    obtain ⟨found, hfound, hupstream⟩ := halike.exists_of_payload? hp
    obtain rfl : found = other := Option.some.inj (hfound.symm.trans ho)
    exact campaign.sameUpstream_of_overlaid hupstream

-- Jobs do not see each other's records: wherever records of other jobs are put, in the lists of
-- however many feedstocks, the plan comes out the same, or fails with the same fault.
theorem foreign_records_change_no_plan (now : Instant) :
    (campaign.job after).plan now after = (campaign.job before).plan now before := by
  have halike := alike_workingGraph_of_sameRecipe (fun _ _ => Feedstock.Overlaid.sameRecipe) h campaign
  refine Job.plan_congr halike ?_ (campaign.order_job after before) (campaign.prLimit_job after before)
  intro name
  rcases halike.payload?_cases name with ⟨hb, ha⟩ | ⟨feedstock, overlaid, hb, ha, hoverlaid⟩
  · rw [Job.judge_of_payload?_eq_none hb, Job.judge_of_payload?_eq_none ha]
  · rw [Job.judge_of_payload? hb, Job.judge_of_payload? ha]
    exact campaign.verdict_of_overlaid h now hoverlaid

omit h

-- Another job's pull request of `a` has been merged, and its record comes first in the list. So
-- `a` is still to be migrated, and `b` still has to wait for it.
def crowded : Graph :=
  Wave.chain.revise "a" fun feedstock =>
    { feedstock with
      attempts := .ofIdentity (books.identity feedstock) (Hosting.withState .merged none) ::
        feedstock.attempts }

theorem alike_crowded : Wave.chain.Alike (Feedstock.Overlaid (wave Wave.plain).identity) crowded := by
  apply Graph.alike_revise (Feedstock.Overlaid.refl _)
  intro feedstock
  refine ⟨_, .inserted _ ?_ (.refl _ _), rfl⟩
  -- The two identities have one branch, and differ in the name of the job that follows it.
  have hbranch : (books.identity feedstock).branch = ((wave Wave.plain).identity feedstock).branch := rfl
  have hname : "Migrator" ≠ "GraphMigrator" := by decide
  intro hdata
  simp only [Attempt.ofIdentity, Identity.toJson, Identity.members, hbranch, List.append_assoc,
    List.cons_append, List.nil_append, Json.object.injEq, List.cons.injEq,
    List.append_cancel_left_eq, Prod.mk.injEq, Json.string.injEq] at hdata
  exact hname hdata.2.1.2

theorem foreign_records_change_no_plan_crowded :
    Wave.chain.Alike (Feedstock.Overlaid (wave Wave.plain).identity) crowded ∧
    ((wave Wave.plain).job crowded).plan ⟨0, 0⟩ crowded =
      ((wave Wave.plain).job Wave.chain).plan ⟨0, 0⟩ Wave.chain ∧
    ∃ plan, ((wave Wave.plain).job crowded).plan ⟨0, 0⟩ crowded = .ok plan ∧
      "a" ∈ plan.order ∧ plan.skipped["b"]? = some .predecessorsNotBuilt := by
  have hplan := (wave Wave.plain).foreign_records_change_no_plan alike_crowded ⟨0, 0⟩
  obtain ⟨plan, hchain⟩ := Wave.plain.exists_plan (by decide : Wave.Named Wave.chain) ⟨0, 0⟩
  refine ⟨alike_crowded, hplan, plan, hplan.trans hchain, ?_, ?_⟩
  · rw [Job.mem_order_of_plan hchain]
    rfl
  · rw [Job.skipped_eq_some_iff hchain]
    rfl

end Campaign

end Rollout
