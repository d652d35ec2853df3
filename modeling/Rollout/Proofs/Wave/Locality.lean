import Rollout.Proofs.Gate.OnGraph
import Rollout.Proofs.Wave.Safety

namespace Rollout

variable {graph : Graph} {target : String} (replacement : Feedstock)

section Known

variable (hknown : ∀ name ∈ graph.names, ∃ feedstock, graph.payload? name = some feedstock)
include hknown

theorem Graph.known_add (name : String) (hm : name ∈ (graph.add target replacement).names) :
    ∃ feedstock, (graph.add target replacement).payload? name = some feedstock := by
  rw [payload?_add]
  split
  · exact ⟨replacement, rfl⟩
  · rename_i hne
    exact hknown name (((graph.mem_names_add target name replacement).mp hm).resolve_left (Ne.symm hne))

-- A payload in place of another leaves the names and the edges as they are.
theorem Graph.alike_add (ht : target ∈ graph.names) :
    graph.Alike (fun _ _ => True) (graph.add target replacement) where
  name n := by
    rw [mem_names_add]
    exact ⟨.inr, fun hn => hn.elim (fun he => he ▸ ht) id⟩
  edge a b := (graph.edge_add target a b replacement).symm
  payload n := by
    rw [payload?_add]
    split
    · rename_i he
      obtain ⟨feedstock, hp⟩ := hknown target ht
      rw [← he, hp]
      exact .some trivial
    · cases graph.payload? n with
      | none => exact .none
      | some feedstock => exact .some trivial
  outputs := rfl

end Known

namespace Plan

-- Plans of jobs that judge a name alike say the same of it.
theorem exists_verdict?_of_judge {job other : Job} {now : Instant} {total changed : Graph}
    {plan altered : Plan} {name : String} (hplan : job.plan now total = .ok plan)
    (haltered : other.plan now changed = .ok altered) (hm : name ∈ (job.workingGraph total).names)
    (hjudge : other.judge now (other.workingGraph changed) name =
      job.judge now (job.workingGraph total) name) :
    ∃ verdict, plan.verdict? name = some verdict ∧ altered.verdict? name = some verdict := by
  obtain ⟨verdict, hv⟩ := (job.exists_plan_iff now total).mp ⟨plan, hplan⟩ name hm
  exact ⟨verdict, (verdict?_eq_some_iff hplan name verdict).mpr hv,
    (verdict?_eq_some_iff haltered name verdict).mpr (hjudge.trans hv)⟩

end Plan

namespace Wave

variable (wave : Wave)

-- What is known of a feedstock is of no account to those that do not directly depend on it.
theorem verdict_add (h : graph.Alike (fun _ _ => True) (graph.add target replacement))
    (now : Instant) {feedstock : Feedstock} (he : ¬ graph.Edge target feedstock.feedstockName) :
    (wave.job (graph.add target replacement)).verdict now feedstock =
      (wave.job graph).verdict now feedstock := by
  have hscreen : (wave.job (graph.add target replacement)).screen feedstock =
      (wave.job graph).screen feedstock := rfl
  have hverdict : ((wave.gate graph).onGraph (graph.add target replacement)).verdict wave.identity
      now feedstock = (wave.gate graph).verdict wave.identity now feedstock := by
    apply Gate.verdict_onGraph_eq h now rfl rfl
    intro dependency upstream other hedge hp ho
    have hne : target ≠ dependency := fun heq => he (heq ▸ hedge)
    rw [Graph.payload?_add, if_neg hne] at ho
    obtain rfl : upstream = other := Option.some.inj (hp.symm.trans ho)
    exact ⟨rfl, rfl⟩
  rw [Job.verdict_of_gate? (wave.gate?_job _), Job.verdict_of_gate? (wave.gate?_job graph), hscreen]
  cases (wave.job graph).screen feedstock with
  | some reason => rfl
  | none => exact hverdict

end Wave

-- A change to one feedstock moves no verdict but its own and those of its direct dependents. Jobs
-- that do not wait for dependencies judge every other feedstock as before.
theorem Graph.payload_moves_direct_dependents_only
    (hknown : ∀ name ∈ graph.names, ∃ feedstock, graph.payload? name = some feedstock)
    (ht : target ∈ graph.names) (now : Instant) :
    (∀ wave : Wave, ∃ plan altered, (wave.job graph).plan now graph = .ok plan ∧
      (wave.job (graph.add target replacement)).plan now (graph.add target replacement) =
        .ok altered ∧
      ∀ name feedstock, graph.payload? name = some feedstock → name ≠ target →
        ¬ graph.Edge target feedstock.feedstockName →
        ∃ verdict, plan.verdict? name = some verdict ∧ altered.verdict? name = some verdict) ∧
    ∀ job : Job, job.gate? = none → ∃ plan altered, job.plan now graph = .ok plan ∧
      job.plan now (graph.add target replacement) = .ok altered ∧
      ∀ name ∈ graph.names, name ≠ target →
        ∃ verdict, plan.verdict? name = some verdict ∧ altered.verdict? name = some verdict := by
  have halike := Graph.alike_add replacement hknown ht
  have hknown' : ∀ name ∈ (graph.add target replacement).names,
      ∃ feedstock, (graph.add target replacement).payload? name = some feedstock :=
    known_add replacement hknown
  refine ⟨fun wave => ?_, fun job hgate => ?_⟩
  · obtain ⟨plan, hplan⟩ := Job.exists_plan_of_gate? (wave.gate?_job graph) now graph hknown
    obtain ⟨altered, haltered⟩ := Job.exists_plan_of_gate?
      (wave.gate?_job (graph.add target replacement)) now (graph.add target replacement) hknown'
    refine ⟨plan, altered, hplan, haltered, fun name feedstock hp hne he => ?_⟩
    apply Plan.exists_verdict?_of_judge hplan haltered (Graph.mem_names_of_payload? hp)
    have hp' : (graph.add target replacement).payload? name = some feedstock := by
      rw [Graph.payload?_add, if_neg hne.symm, hp]
    rw [Job.workingGraph_of_gate? (wave.gate?_job _), Job.workingGraph_of_gate? (wave.gate?_job graph)]
    exact (Job.judge_of_payload? hp' _ now).trans
      ((wave.verdict_add replacement halike now he).trans (Job.judge_of_payload? hp _ now).symm)
  · obtain ⟨plan, hplan⟩ := Job.exists_plan_of_gate?_eq_none hgate now hknown
    obtain ⟨altered, haltered⟩ := Job.exists_plan_of_gate?_eq_none hgate now hknown'
    refine ⟨plan, altered, hplan, haltered, fun name hm hne => ?_⟩
    rw [← Job.workingGraph_of_gate?_eq_none hgate graph] at hm
    apply Plan.exists_verdict?_of_judge hplan haltered hm
    simp only [Job.judge, Job.workingGraph_of_gate?_eq_none hgate, Graph.payload,
      Graph.payload?_add, if_neg hne.symm]

-- The feedstock `c` depends on `b`, and `b` on `a`. Once `a` is archived, `b` need not wait for it
-- any more. For `c` nothing has changed.
def Graph.line : Graph := (Wave.chain.add "c" (.named "c")).connect "b" "c"

-- Its payload now, under another name.
def Feedstock.gone : Feedstock := { Feedstock.named "z" with archived := true }

theorem Graph.payload_moves_direct_dependents_only_line :
    (∀ name ∈ line.names, ∃ feedstock, line.payload? name = some feedstock) ∧
    "a" ∈ line.names ∧ ¬ line.Edge "a" "c" ∧
    ∃ plan altered, (Wave.plain.job line).plan ⟨0, 0⟩ line = .ok plan ∧
      (Wave.plain.job (line.add "a" .gone)).plan ⟨0, 0⟩ (line.add "a" .gone) = .ok altered ∧
      plan.verdict? "b" = some (.skip .predecessorsNotBuilt) ∧
      altered.verdict? "b" = some .proceed ∧
      altered.verdict? "c" = some (.skip .predecessorsNotBuilt) := by
  have hknown := Wave.exists_payload?_of_named (by decide : Wave.Named line)
  have ha : "a" ∈ line.names := by decide
  have he : ¬ line.Edge "a" "c" := by decide
  obtain ⟨hwaves, -⟩ := payload_moves_direct_dependents_only .gone hknown ha ⟨0, 0⟩
  obtain ⟨plan, altered, hplan, haltered, hkept⟩ := hwaves Wave.plain
  obtain ⟨verdict, hc, hc'⟩ := hkept "c" (.named "c") (by decide) (by decide) he
  have hwaits : plan.verdict? "c" = some (.skip .predecessorsNotBuilt) :=
    (Plan.verdict?_eq_some_iff hplan ..).mpr (by decide)
  obtain rfl : verdict = .skip .predecessorsNotBuilt := Option.some.inj (hc.symm.trans hwaits)
  refine ⟨hknown, ha, he, plan, altered, hplan, haltered, ?_, ?_, hc'⟩
  · exact (Plan.verdict?_eq_some_iff hplan ..).mpr (by decide)
  · exact (Plan.verdict?_eq_some_iff haltered ..).mpr (by decide)

end Rollout
