import Rollout.Proofs.Campaign.Alike
import Rollout.Proofs.Gate.Lapse
import Rollout.Proofs.Wave.Safety

namespace Rollout

theorem Feedstock.Lapses.sameRecipe {before after : Feedstock} (h : before.Lapses after) :
    before.SameRecipe after := by
  obtain ⟨attempts, -, rfl⟩ := h
  exact ⟨rfl, rfl, rfl⟩

namespace Campaign

variable {before after : Graph}

theorem identity_of_lapses (campaign : Campaign) {feedstock lapsed : Feedstock}
    (h : feedstock.Lapses lapsed) : campaign.identity feedstock = campaign.identity lapsed := by
  obtain ⟨attempts, -, rfl⟩ := h
  rfl

-- Records that lapse stay on record, so nobody is screened otherwise than before.
theorem screen_of_lapses (campaign : Campaign) (before after : Graph) {feedstock lapsed : Feedstock}
    (h : feedstock.Lapses lapsed) :
    (campaign.job after).screen lapsed = (campaign.job before).screen feedstock := by
  have hfound := h.isSome_find?_eq (campaign.identity feedstock)
  obtain ⟨attempts, -, rfl⟩ := h
  exact campaign.screen_of_attempts before after feedstock attempts hfound.symm

theorem verdict_hindered (campaign : Campaign) (h : before.Alike Feedstock.Lapses after)
    (now : Instant) {feedstock lapsed : Feedstock} (hlapses : feedstock.Lapses lapsed) :
    Gate.Hindered ((campaign.job before).verdict now feedstock)
      ((campaign.job after).verdict now lapsed) := by
  have hscreen := campaign.screen_of_lapses before after hlapses
  rcases verdict_cases (fun _ _ => Feedstock.Lapses.sameRecipe) h campaign now hscreen
    hlapses.sameRecipe.requirements with he | ⟨gate, graph, halike, hbefore, hafter⟩
  · exact .inl he
  · rw [hbefore, hafter]
    exact Gate.verdict_onGraph_hindered halike (fun _ _ => campaign.identity_of_lapses) now hlapses

theorem alike_workingGraph (campaign : Campaign) (h : before.Alike Feedstock.Lapses after) :
    ((campaign.job before).workingGraph before).Alike Feedstock.Lapses
      ((campaign.job after).workingGraph after) :=
  alike_workingGraph_of_sameRecipe (fun _ _ => Feedstock.Lapses.sameRecipe) h campaign

-- The verdict on a name of the job's own graph, before and after the lapses.
theorem judge_hindered (campaign : Campaign) (h : before.Alike Feedstock.Lapses after)
    (now : Instant) (name : String) :
    Gate.Hindered ((campaign.job before).judge now ((campaign.job before).workingGraph before) name)
      ((campaign.job after).judge now ((campaign.job after).workingGraph after) name) := by
  rcases (campaign.alike_workingGraph h).payload?_cases name with
    ⟨hb, ha⟩ | ⟨feedstock, lapsed, hb, ha, hlapses⟩
  · rw [Job.judge_of_payload?_eq_none hb, Job.judge_of_payload?_eq_none ha]
    exact .inl rfl
  · rw [Job.judge_of_payload? hb, Job.judge_of_payload? ha]
    exact campaign.verdict_hindered h now hlapses

-- However much the hosting site's data lapses, planning fails only if it did before, nothing
-- is let through that was not, and whoever was passed over is passed over for the same reason.
theorem lapses_let_nothing_through (campaign : Campaign) (now : Instant)
    (h : before.Alike Feedstock.Lapses after) :
    (∀ fault, (campaign.job after).plan now after = .error fault ↔
      (campaign.job before).plan now before = .error fault) ∧
    ∀ plan lapsed, (campaign.job before).plan now before = .ok plan →
      (campaign.job after).plan now after = .ok lapsed →
      (∀ name ∈ lapsed.order, name ∈ plan.order) ∧
      (∀ (name : String) (reason : SkipReason), plan.skipped[name]? = some reason →
        lapsed.skipped[name]? = some reason) ∧
      ∀ (name : String) (reason : SkipReason), lapsed.skipped[name]? = some reason →
        reason ≠ .predecessorsNotBuilt → plan.skipped[name]? = some reason := by
  refine ⟨fun fault => ?_, fun plan lapsed hplan hlapsed => ⟨?_, ?_, ?_⟩⟩
  · rw [Job.plan_eq_error_iff, Job.plan_eq_error_iff, (campaign.alike_workingGraph h).names_eq]
    apply Entries.collect_eq_error_congr
    intro name other
    rcases campaign.judge_hindered h now name with he | ⟨hb, ha⟩
    · rw [he]
    · rw [hb, ha]
      simp
  · intro name hm
    rw [Job.mem_order_of_plan hlapsed] at hm
    rw [Job.mem_order_of_plan hplan]
    rcases campaign.judge_hindered h now name with he | ⟨hb, -⟩
    · exact he ▸ hm
    · exact hb
  · intro name reason hs
    rw [Job.skipped_eq_some_iff hplan] at hs
    rw [Job.skipped_eq_some_iff hlapsed]
    rcases campaign.judge_hindered h now name with he | ⟨hb, -⟩
    · exact he.trans hs
    · cases hb.symm.trans hs
  · intro name reason hs hreason
    rw [Job.skipped_eq_some_iff hlapsed] at hs
    rw [Job.skipped_eq_some_iff hplan]
    rcases campaign.judge_hindered h now name with he | ⟨-, ha⟩
    · exact he.symm.trans hs
    · cases ha.symm.trans hs
      exact absurd rfl hreason

-- The merged pull request of `a` is not known as such any more, so `b` has to wait.
def faded : Graph := Wave.merged.revise "a" fun feedstock => feedstock.rehosted 0 fun _ => none

theorem alike_faded : Wave.merged.Alike Feedstock.Lapses faded := by
  apply Graph.alike_revise Feedstock.Lapses.refl
  intro feedstock
  apply Feedstock.Lapses.rehosted
  intro hosting
  cases hosting with
  | none => exact .refl
  | some hosting => exact .single (.dropped hosting)

theorem lapses_let_nothing_through_faded :
    Wave.merged.Alike Feedstock.Lapses faded ∧
    ∃ plan lapsed, ((wave Wave.plain).job Wave.merged).plan ⟨0, 0⟩ Wave.merged = .ok plan ∧
      ((wave Wave.plain).job faded).plan ⟨0, 0⟩ faded = .ok lapsed ∧
      "b" ∈ plan.order ∧ "b" ∉ lapsed.order ∧ (∀ name ∈ lapsed.order, name ∈ plan.order) ∧
      lapsed.skipped["a"]? = some .alreadyMigrated := by
  have hmerged : Wave.Named Wave.merged := by decide
  have hfaded : Wave.Named faded := by decide
  obtain ⟨plan, hplan⟩ := Wave.plain.exists_plan hmerged ⟨0, 0⟩
  obtain ⟨lapsed, hlapsed⟩ := Wave.plain.exists_plan hfaded ⟨0, 0⟩
  obtain ⟨-, hkept⟩ := lapses_let_nothing_through (wave Wave.plain) ⟨0, 0⟩ alike_faded
  obtain ⟨horder, hskipped, -⟩ := hkept plan lapsed hplan hlapsed
  refine ⟨alike_faded, plan, lapsed, hplan, hlapsed, ?_, ?_, horder, hskipped "a" _ ?_⟩
  · rw [Job.mem_order_of_plan hplan]
    rfl
  · rw [Job.mem_order_of_plan hlapsed]
    intro hproceed
    cases hproceed
  · rw [Job.skipped_eq_some_iff hplan]
    rfl

end Campaign

end Rollout
