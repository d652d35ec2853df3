import Rollout.Proofs.Gate.Progress
import Rollout.Proofs.PlatformGraph.Extent
import Rollout.Proofs.Wave

namespace Rollout

theorem Graph.named_platformGraph {total : Graph} (h : Wave.Named total) (profile : Profile)
    (scope : PlatformScope) : Wave.Named (total.platformGraph profile scope) := by
  intro name hm
  obtain ⟨feedstock, hp⟩ := total.exists_payload?_platformGraph profile scope hm
  have htotal := total.inherits_platformGraph profile scope name feedstock hp
  exact ⟨feedstock, hp, Wave.feedstockName_of_named h htotal⟩

namespace Job

section Undeclared

variable {job : Job} {graph : Graph} (hgate : job.gate? = some (.ofGraph graph))
  (hnamed : Wave.Named graph)
include hgate hnamed

-- A job that declares nothing visits the names that are not blocked by others.
theorem mem_order_iff_unblocked (hclear : graph.Clear job.identity) {now : Instant} {total : Graph}
    {plan : Plan} (hplan : job.plan now total = .ok plan) (name : String) :
    name ∈ plan.order ↔
      name ∈ graph.remaining job.identity ∧ graph.Unblocked job.identity name := by
  rw [mem_order_iff_of_gate? hgate hplan, Graph.mem_remaining]
  have hexempt : ¬ (Gate.ofGraph graph).Exempt name := by simp [Gate.Exempt, Gate.ofGraph]
  constructor
  · rintro ⟨feedstock, hp, hscreen, hv⟩
    obtain rfl := Wave.feedstockName_of_named hnamed hp
    obtain ⟨ha, hf, -⟩ := (screen_eq_none_iff job feedstock).mp hscreen
    exact ⟨⟨feedstock, hp, ha, hf⟩, Gate.unblocked_of_verdict rfl hexempt hv⟩
  · rintro ⟨⟨feedstock, hp, ha, hf⟩, hfree⟩
    have hm := Graph.mem_names_of_payload? hp
    obtain rfl := Wave.feedstockName_of_named hnamed hp
    obtain ⟨hparsing, hblocks⟩ := hclear.sound _ feedstock hp ha hf
    rw [← tolerance_of_gate? hgate] at hblocks
    have hready : (Gate.ofGraph graph).Ready job.identity feedstock.feedstockName :=
      Gate.ready_of_unblocked hclear hfree
    refine ⟨feedstock, hp, (screen_eq_none_iff job feedstock).mpr ⟨ha, hf, hblocks, hparsing⟩, ?_⟩
    exact Gate.verdict_of_ready job.identity now hm (fun _ he => Wave.payload?_of_edge hnamed he) hready

theorem batch_ne_nil_iff_unblocked (hclear : graph.Clear job.identity) {now : Instant}
    {total : Graph} {plan : Plan} (hplan : job.plan now total = .ok plan) :
    plan.batch ≠ [] ↔
      ∃ name ∈ graph.remaining job.identity, graph.Unblocked job.identity name := by
  have horder := mem_order_iff_unblocked hgate hnamed hclear hplan
  rw [ne_eq, plan.batch_eq_nil_iff]
  constructor
  · intro hne
    obtain ⟨name, hm⟩ := List.exists_mem_of_ne_nil _ hne
    exact ⟨name, (horder name).mp hm⟩
  · rintro ⟨name, hfree⟩
    exact List.ne_nil_of_mem ((horder name).mpr hfree)

end Undeclared

-- A rebuild visits what waits for nothing that remains. It comes to a halt only on a cycle,
-- since the cycles of its own graph are never declared.
theorem rebuild_halts_only_on_cycles (profile : Profile) (own : Option String) (total : Graph)
    (scope : PlatformScope) (prLimit : Nat) (piggybacks : List Piggyback)
    (hnamed : Wave.Named total)
    (hclear : (total.platformGraph profile scope).Clear
      (rebuild profile own total scope prLimit piggybacks).identity) (now : Instant) :
    let job := rebuild profile own total scope prLimit piggybacks
    let working := total.platformGraph profile scope
    ∃ plan, job.plan now total = .ok plan ∧
      (∀ name, name ∈ plan.order ↔
        name ∈ working.remaining job.identity ∧ working.Unblocked job.identity name) ∧
      (plan.batch ≠ [] ↔ ∃ name ∈ working.remaining job.identity,
        working.Unblocked job.identity name) ∧
      (plan.batch = [] → working.remaining job.identity ≠ [] →
        ∃ first rest, working.Cycle first rest ∧
          ∀ name ∈ first :: rest, name ∈ working.remaining job.identity) := by
  intro job working
  have hgate : job.gate? = some (.ofGraph working) := rfl
  have hworking : Wave.Named working := Graph.named_platformGraph hnamed profile scope
  obtain ⟨plan, hplan⟩ := exists_plan_of_gate? hgate now total (Wave.exists_payload?_of_named hworking)
  have hbatch := batch_ne_nil_iff_unblocked hgate hworking hclear hplan
  refine ⟨plan, hplan, mem_order_iff_unblocked hgate hworking hclear hplan, hbatch, ?_⟩
  intro hempty hne
  exact Graph.exists_cycle_of_blocked hne fun hfree => hbatch.mpr hfree hempty

-- Two feedstocks that ask for packages and have nothing on record.
def requiring (name : String) (packages : List String) : Feedstock :=
  { Feedstock.named name with requirements := ⟨∅, NameSet.ofList packages, ∅, ∅⟩ }

def couple (first second : List String) : Graph :=
  (Graph.empty.add "a" (requiring "a" first)).add "b" (requiring "b" second)

def coupled (first second : List String) : Graph :=
  (couple first second).platformGraph .aarch64Ppc64le ⟨∅, ∅⟩

def coupleJob (first second : List String) : Job :=
  rebuild .aarch64Ppc64le none (couple first second) ⟨∅, ∅⟩ 0 []

theorem clear_coupled (first second : List String) :
    (coupled first second).Clear (coupleJob first second).identity := by
  have hpayload : ∀ name feedstock, (coupled first second).payload? name = some feedstock →
      ∃ own packages, feedstock = requiring own packages := by
    intro name feedstock hp
    have htotal := Graph.inherits_platformGraph _ _ _ name feedstock hp
    simp only [couple, Graph.payload?_add] at htotal
    split at htotal
    · exact ⟨_, _, (Option.some.inj htotal).symm⟩
    · split at htotal
      · exact ⟨_, _, (Option.some.inj htotal).symm⟩
      · cases htotal
  constructor
  · intro name feedstock hp _ _
    obtain ⟨own, packages, rfl⟩ := hpayload name feedstock hp
    exact ⟨rfl, rfl⟩
  · intro name feedstock hp attempt hm
    obtain ⟨own, packages, rfl⟩ := hpayload name feedstock hp
    cases hm

-- If only the second one asks for the other, the first one goes ahead and the second waits.
theorem rebuild_halts_only_on_cycles_couple :
    Wave.Named (couple [] ["a"]) ∧
    (coupled [] ["a"]).Clear (coupleJob [] ["a"]).identity ∧
    ∃ plan, (coupleJob [] ["a"]).plan ⟨0, 0⟩ (couple [] ["a"]) = .ok plan ∧
      "a" ∈ plan.order ∧ "b" ∉ plan.order ∧ plan.batch ≠ [] := by
  have hnamed : Wave.Named (couple [] ["a"]) := by decide
  have hclear := clear_coupled [] ["a"]
  have hfree : "a" ∈ (coupled [] ["a"]).remaining (coupleJob [] ["a"]).identity ∧
      (coupled [] ["a"]).Unblocked (coupleJob [] ["a"]).identity "a" := by decide +kernel
  have hblocked : ¬ (coupled [] ["a"]).Unblocked (coupleJob [] ["a"]).identity "b" := by
    decide +kernel
  obtain ⟨plan, hplan, horder, hbatch, -⟩ := rebuild_halts_only_on_cycles .aarch64Ppc64le none
    (couple [] ["a"]) ⟨∅, ∅⟩ 0 [] hnamed hclear ⟨0, 0⟩
  exact ⟨hnamed, hclear, plan, hplan, (horder "a").mpr hfree,
    fun hm => hblocked ((horder "b").mp hm).2, hbatch.mpr ⟨"a", hfree⟩⟩

-- If they ask for each other, both remain and neither goes ahead.
theorem rebuild_halts_couple :
    Wave.Named (couple ["b"] ["a"]) ∧
    (coupled ["b"] ["a"]).Clear (coupleJob ["b"] ["a"]).identity ∧
    (coupled ["b"] ["a"]).remaining (coupleJob ["b"] ["a"]).identity = ["a", "b"] ∧
    ∃ plan, (coupleJob ["b"] ["a"]).plan ⟨0, 0⟩ (couple ["b"] ["a"]) = .ok plan ∧
      plan.batch = [] := by
  have hnamed : Wave.Named (couple ["b"] ["a"]) := by decide
  have hworking : Wave.Named (coupled ["b"] ["a"]) := Graph.named_platformGraph hnamed _ _
  have hclear := clear_coupled ["b"] ["a"]
  have hremaining : (coupled ["b"] ["a"]).remaining (coupleJob ["b"] ["a"]).identity = ["a", "b"] := by
    decide +kernel
  have hblocked : ∀ name ∈ ["a", "b"],
      ¬ (coupled ["b"] ["a"]).Unblocked (coupleJob ["b"] ["a"]).identity name := by decide +kernel
  have hgate : (coupleJob ["b"] ["a"]).gate? = some (.ofGraph (coupled ["b"] ["a"])) := rfl
  obtain ⟨plan, hplan⟩ := exists_plan_of_gate? hgate ⟨0, 0⟩ (couple ["b"] ["a"])
    (Wave.exists_payload?_of_named hworking)
  have hbatch := batch_ne_nil_iff_unblocked hgate hworking hclear hplan
  rw [hremaining] at hbatch
  refine ⟨hnamed, hclear, hremaining, plan, hplan, Decidable.not_not.mp fun hne => ?_⟩
  obtain ⟨name, hm, hfree⟩ := hbatch.mp hne
  exact hblocked name hm hfree

end Job

end Rollout
