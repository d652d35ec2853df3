import Rollout.Proofs.Plan.Partition
import Rollout.Proofs.Schedule.Paths
import Rollout.Proofs.Wave

namespace Rollout.Job

-- Replacements apart, the visits are a schedule that starts at the top level.
theorem exists_schedule_of_order {job : Job} (hkind : ∀ pair, job.kind ≠ .swap pair)
    (eligible : Graph) :
    ∃ topLevel cycles, job.order eligible = eligible.schedule topLevel cycles ∧
      ∀ name ∈ eligible.topLevel, name ∈ topLevel := by
  unfold order
  cases hk : job.kind with
  | bookkeeping => exact ⟨_, _, rfl, fun _ hm => hm⟩
  | wave own gate =>
      exact ⟨_, _, rfl, fun _ hm => Std.ExtTreeSet.mem_union_of_left hm⟩
  | swap pair => exact absurd hk (hkind pair)
  | platforms profile own gate targets => exact ⟨_, _, rfl, fun _ hm => hm⟩

section Plan

variable {job : Job} {now : Instant} {total : Graph} {plan : Plan}
  (h : job.plan now total = .ok plan)
include h

-- The order is made on the part of the working graph that the eligible feedstocks span.
theorem exists_eligible_of_plan :
    ∃ eligible : Graph, plan.order = job.order eligible ∧
      ∀ source target, eligible.Edge source target ↔
        (job.workingGraph total).Edge source target ∧ source ∈ plan.order ∧ target ∈ plan.order := by
  obtain ⟨entries, he, hplan⟩ := (job.plan_eq_ok_iff now total plan).mp h
  refine ⟨(job.workingGraph total).restrict (eligibleNames entries), by rw [hplan], ?_⟩
  have hmem : ∀ name, name ∈ plan.order ↔
      name ∈ (job.workingGraph total).names ∧ name ∈ eligibleNames entries := by
    intro name
    rw [hplan, mem_order, Graph.mem_names_restrict]
  intro source target
  rw [Graph.edge_restrict, hmem, hmem]
  constructor
  · exact fun ⟨hedge, ht, hs⟩ => ⟨hedge, ⟨hedge.source_mem, hs⟩, hedge.target_mem, ht⟩
  · exact fun ⟨hedge, hs, ht⟩ => ⟨hedge, ht.2, hs.2⟩

-- A plan that holds no two neighbours goes by the names alone.
theorem pairwise_order_of_apart
    (happart : ∀ source ∈ plan.order, ∀ target ∈ plan.order,
      (job.workingGraph total).Edge source target → source = target) :
    plan.order.Pairwise (· < ·) := by
  obtain ⟨eligible, horder, hedge⟩ := exists_eligible_of_plan h
  by_cases hkind : ∃ pair, job.kind = .swap pair
  · obtain ⟨pair, hkind⟩ := hkind
    exact pairwise_order_of_swap h hkind
  · obtain ⟨topLevel, cycles, hschedule, htop⟩ :=
      exists_schedule_of_order (not_exists.mp hkind) eligible
    have heligible : eligible.Apart := by
      intro source target he
      obtain ⟨he, hs, ht⟩ := (hedge source target).mp he
      exact happart source hs target ht he
    rw [horder, hschedule, heligible.schedule topLevel cycles
      fun name hm => htop name (heligible.mem_topLevel hm)]
    exact eligible.pairwise_names

end Plan

-- Dependencies come first along every path that stays among the eligible feedstocks, unless
-- there are cycles beside the loops.
theorem order_follows_eligible_paths (job : Job) (hkind : ∀ pair, job.kind ≠ .swap pair)
    (now : Instant) (total : Graph) (hloops : (job.workingGraph total).LoopsOnly) (plan : Plan)
    (h : job.plan now total = .ok plan) (source target : String) (hne : source ≠ target)
    (hpath : (job.workingGraph total).PathAmong plan.order source target) :
    plan.order.idxOf source < plan.order.idxOf target := by
  obtain ⟨eligible, horder, hedge⟩ := exists_eligible_of_plan h
  obtain ⟨topLevel, cycles, hschedule, -⟩ := exists_schedule_of_order hkind eligible
  have hp : eligible.Path source target :=
    Relation.ReflTransGen.mono (fun a b he => (hedge a b).mpr he) _ _ hpath
  have heligible : eligible.LoopsOnly := hloops.mono fun a b he => ((hedge a b).mp he).1
  rw [horder, hschedule]
  exact heligible.schedule_idxOf_lt topLevel cycles hp hne

-- Three feedstocks in a row, against the order of their names; the middle one may be archived.
def slope (archived : Bool) : Graph :=
  ((((Graph.empty.add "a" (.named "a")).add "m" { Feedstock.named "m" with archived := archived }).add
    "z" (.named "z")).connect "z" "m").connect "m" "a"

theorem loopsOnly_slope (archived : Bool) : (slope archived).LoopsOnly := by
  apply Graph.loopsOnly_of_rank _ ["z", "m", "a"].idxOf
  cases archived <;> decide

def bookkeeping : Job := ⟨.ofVersion 0, .bookkeeping⟩

theorem order_follows_eligible_paths_slope :
    (slope false).LoopsOnly ∧
      ∃ plan, bookkeeping.plan ⟨0, 0⟩ (slope false) = .ok plan ∧
        (slope false).PathAmong plan.order "z" "a" ∧ plan.order.idxOf "z" < plan.order.idxOf "a" := by
  have hloops := loopsOnly_slope false
  obtain ⟨plan, hplan⟩ : ∃ plan, bookkeeping.plan ⟨0, 0⟩ (slope false) = .ok plan := ⟨_, rfl⟩
  have hm : ∀ name ∈ ["a", "m", "z"], name ∈ plan.order := by
    intro name hn
    rw [mem_order_of_plan hplan]
    revert name
    decide
  have hpath : (slope false).PathAmong plan.order "z" "a" :=
    .head ⟨by decide, hm "z" (by decide), hm "m" (by decide)⟩
      (.single ⟨by decide, hm "m" (by decide), hm "a" (by decide)⟩)
  exact ⟨hloops, plan, hplan, hpath, order_follows_eligible_paths bookkeeping (by nofun) ⟨0, 0⟩
    (slope false) hloops plan hplan "z" "a" (by decide) hpath⟩

-- An archived feedstock takes the path through it along, and the names decide.
theorem order_ignores_archived_slope :
    (slope true).LoopsOnly ∧ (slope true).Path "z" "a" ∧
      ∃ plan, (Wave.plain.job (slope true)).plan ⟨0, 0⟩ (slope true) = .ok plan ∧
        plan.order = ["a", "z"] ∧ plan.skipped["m"]? = some .archived ∧
        ¬ plan.order.idxOf "z" < plan.order.idxOf "a" := by
  have hpath : (slope true).Path "z" "a" :=
    .head (by decide : (slope true).Edge "z" "m") (.single (by decide))
  obtain ⟨plan, hplan⟩ : ∃ plan,
      (Wave.plain.job (slope true)).plan ⟨0, 0⟩ (slope true) = .ok plan := ⟨_, rfl⟩
  have hm : ∀ name, name ∈ plan.order ↔ name ∈ ["a", "z"] := by
    have hverdicts : ∀ name ∈ (slope true).names,
        (Wave.plain.job (slope true)).judge ⟨0, 0⟩ (slope true) name = .ok .proceed →
          name ∈ ["a", "z"] := by decide
    intro name
    constructor
    · intro hn
      exact hverdicts name ((mem_order_or_skipped_iff hplan name).mp (.inl hn))
        ((mem_order_of_plan hplan name).mp hn)
    · rw [mem_order_of_plan hplan]
      revert name
      decide
  have happart : ∀ source ∈ plan.order, ∀ target ∈ plan.order,
      (slope true).Edge source target → source = target := by
    simp only [hm]
    decide
  have horder : plan.order = ["a", "z"] :=
    (pairwise_order_of_apart hplan happart).eq_of_mem_iff (by decide) hm
  refine ⟨loopsOnly_slope true, hpath, plan, hplan, horder, ?_, ?_⟩
  · rw [skipped_eq_some_iff hplan]
    rfl
  · rw [horder]
    decide

end Rollout.Job
