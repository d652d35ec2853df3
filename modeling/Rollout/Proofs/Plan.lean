import Rollout.Plan
import Rollout.Proofs.Entries
import Rollout.Proofs.Graph.Rebuilt
import Rollout.Proofs.Schedule.Order

namespace Rollout.Job

theorem screen_eq_none_iff (job : Job) (feedstock : Feedstock) :
    job.screen feedstock = none ↔
      feedstock.archived = false ∧ feedstock.find? (job.identity feedstock) = none ∧
        feedstock.standing.blocks job.tolerance = false ∧ feedstock.parsingError = false := by
  unfold screen
  cases feedstock.archived <;> cases feedstock.find? (job.identity feedstock) <;>
    cases feedstock.standing.blocks job.tolerance <;> cases feedstock.parsingError <;> simp

theorem screen_of_verdict {job : Job} {now : Instant} {feedstock : Feedstock}
    (h : job.verdict now feedstock = .ok .proceed) : job.screen feedstock = none := by
  unfold verdict at h
  cases hs : job.screen feedstock with
  | none => rfl
  | some reason => simp [hs] at h

-- A feedstock with the job's identity on record is passed over, for one of two reasons.
theorem verdict_of_find? {job : Job} {feedstock : Feedstock}
    (h : (feedstock.find? (job.identity feedstock)).isSome = true) (now : Instant) :
    job.verdict now feedstock =
      .ok (.skip (if feedstock.archived then .archived else .alreadyMigrated)) := by
  have hs : job.screen feedstock =
      some (if feedstock.archived then .archived else .alreadyMigrated) := by
    unfold screen
    cases feedstock.archived <;> simp [h]
  rw [verdict, hs]

-- The verdict on a name of a graph. A name of which nothing is known has none.
def judge (job : Job) (now : Instant) (working : Graph) (name : String) : Except Fault Verdict :=
  (working.payload name).bind (job.verdict now)

theorem judge_of_payload? {working : Graph} {name : String} {feedstock : Feedstock}
    (h : working.payload? name = some feedstock) (job : Job) (now : Instant) :
    job.judge now working name = job.verdict now feedstock := by
  rw [judge, (working.payload_eq_ok_iff name feedstock).mpr h]
  rfl

theorem judge_of_payload?_eq_none {working : Graph} {name : String}
    (h : working.payload? name = none) (job : Job) (now : Instant) :
    job.judge now working name = .error (.noPayload name) := by
  rw [judge, (working.payload_eq_error_iff name _).mpr ⟨h, rfl⟩]
  rfl

theorem judge_eq_ok_iff (job : Job) (now : Instant) (working : Graph) (name : String)
    (verdict : Verdict) :
    job.judge now working name = .ok verdict ↔
      ∃ feedstock, working.payload? name = some feedstock ∧ job.verdict now feedstock = .ok verdict := by
  unfold judge Graph.payload
  cases working.payload? name with
  | none => simp [Except.bind]
  | some feedstock => simp [Except.bind]

theorem verdicts_eq_collect (job : Job) (now : Instant) (working : Graph) :
    job.verdicts now working = Entries.collect (job.judge now working) working.names := by
  unfold verdicts Entries.collect judge
  congr 1
  funext name
  cases working.payload name with
  | error fault => rfl
  | ok feedstock =>
      change (job.verdict now feedstock).bind (fun verdict => .ok (name, verdict)) =
        (job.verdict now feedstock).map fun verdict => (name, verdict)
      cases job.verdict now feedstock <;> rfl

def eligibleNames (entries : List (String × Verdict)) : NameSet :=
  NameSet.ofList ((entries.filter fun entry => entry.2 == .proceed).map Prod.fst)

theorem mem_eligibleNames (entries : List (String × Verdict)) (name : String) :
    name ∈ eligibleNames entries ↔ (name, Verdict.proceed) ∈ entries := by
  simp [eligibleNames, NameSet.mem_ofList]

theorem plan_eq_ok_iff (job : Job) (now : Instant) (total : Graph) (plan : Plan) :
    job.plan now total = .ok plan ↔
      ∃ entries, Entries.collect (job.judge now (job.workingGraph total)) (job.workingGraph total).names
          = .ok entries ∧
        plan = {
          order := job.order ((job.workingGraph total).restrict (eligibleNames entries))
          skipped := Std.ExtTreeMap.ofList (entries.filterMap skipReason?) compare
          prLimit := job.settings.prLimit } := by
  rw [← verdicts_eq_collect]
  constructor
  · intro h
    cases hv : job.verdicts now (job.workingGraph total) with
    | error fault => simp [Job.plan, hv, bind, Except.bind] at h
    | ok entries =>
        refine ⟨entries, rfl, ?_⟩
        simp only [Job.plan, hv] at h
        exact (Except.ok.inj h).symm
  · rintro ⟨entries, hv, rfl⟩
    simp only [Job.plan, hv]
    rfl

theorem plan_eq_error_iff (job : Job) (now : Instant) (total : Graph) (fault : Fault) :
    job.plan now total = .error fault ↔
      Entries.collect (job.judge now (job.workingGraph total)) (job.workingGraph total).names
        = .error fault := by
  rw [← verdicts_eq_collect]
  cases hv : job.verdicts now (job.workingGraph total) <;> simp [Job.plan, hv, bind, Except.bind, pure, Except.pure]

theorem exists_plan_iff (job : Job) (now : Instant) (total : Graph) :
    (∃ plan, job.plan now total = .ok plan) ↔
      ∀ name ∈ (job.workingGraph total).names, ∃ verdict,
        job.judge now (job.workingGraph total) name = .ok verdict := by
  rw [← Entries.exists_collect_iff]
  constructor
  · rintro ⟨plan, h⟩
    obtain ⟨entries, he, -⟩ := (job.plan_eq_ok_iff now total plan).mp h
    exact ⟨entries, he⟩
  · rintro ⟨entries, he⟩
    exact ⟨_, (job.plan_eq_ok_iff now total _).mpr ⟨entries, he, rfl⟩⟩

theorem mem_order (job : Job) (eligible : Graph) (name : String) :
    name ∈ job.order eligible ↔ name ∈ eligible.names := by
  unfold order
  cases job.kind with
  | bookkeeping => exact eligible.mem_schedule _ _ name
  | wave own gate => exact eligible.mem_schedule _ _ name
  | swap pair => rfl
  | platforms profile own gate targets => exact eligible.mem_schedule _ _ name

theorem nodup_order (job : Job) (eligible : Graph) : (job.order eligible).Nodup := by
  unfold order
  cases job.kind with
  | bookkeeping => exact eligible.nodup_schedule _ _
  | wave own gate => exact eligible.nodup_schedule _ _
  | swap pair => exact eligible.nodup_names
  | platforms profile own gate targets => exact eligible.nodup_schedule _ _

theorem nodup_order_of_plan {job : Job} {now : Instant} {total : Graph} {plan : Plan}
    (h : job.plan now total = .ok plan) : plan.order.Nodup := by
  obtain ⟨entries, -, rfl⟩ := (job.plan_eq_ok_iff now total plan).mp h
  exact job.nodup_order _

theorem mem_order_of_plan {job : Job} {now : Instant} {total : Graph} {plan : Plan}
    (h : job.plan now total = .ok plan) (name : String) :
    name ∈ plan.order ↔ job.judge now (job.workingGraph total) name = .ok .proceed := by
  obtain ⟨entries, he, rfl⟩ := (job.plan_eq_ok_iff now total plan).mp h
  rw [mem_order, Graph.mem_names_restrict, mem_eligibleNames, Entries.mem_collect _ he]
  constructor
  · exact fun hm => hm.2.2
  · intro hv
    obtain ⟨feedstock, hp, -⟩ := (job.judge_eq_ok_iff now _ name _).mp hv
    exact ⟨Graph.mem_names_of_payload? hp, Graph.mem_names_of_payload? hp, hv⟩

theorem prLimit_of_plan {job : Job} {now : Instant} {total : Graph} {plan : Plan}
    (h : job.plan now total = .ok plan) : plan.prLimit = job.settings.prLimit := by
  obtain ⟨entries, -, rfl⟩ := (job.plan_eq_ok_iff now total plan).mp h
  rfl

theorem skipReason?_eq_some_iff (entry : String × Verdict) (found : String × SkipReason) :
    skipReason? entry = some found ↔ entry = (found.1, .skip found.2) := by
  obtain ⟨name, verdict⟩ := entry
  obtain ⟨other, reason⟩ := found
  cases verdict <;> simp [skipReason?]

theorem mem_filterMap_skipReason? (entries : List (String × Verdict)) (name : String)
    (reason : SkipReason) :
    (name, reason) ∈ entries.filterMap skipReason? ↔ (name, Verdict.skip reason) ∈ entries := by
  simp only [List.mem_filterMap, skipReason?_eq_some_iff, exists_eq_right]

theorem skipped_of_plan {job : Job} {now : Instant} {total : Graph} {plan : Plan}
    (h : job.plan now total = .ok plan) (name : String) (reason : SkipReason)
    (hv : job.judge now (job.workingGraph total) name = .ok (.skip reason)) :
    plan.skipped[name]? = some reason := by
  obtain ⟨entries, he, rfl⟩ := (job.plan_eq_ok_iff now total plan).mp h
  obtain ⟨feedstock, hp, -⟩ := (job.judge_eq_ok_iff now _ name _).mp hv
  have hm : (name, reason) ∈ entries.filterMap skipReason? := by
    rw [mem_filterMap_skipReason?, Entries.mem_collect _ he]
    exact ⟨Graph.mem_names_of_payload? hp, hv⟩
  have hkeys : (entries.map Prod.fst).Nodup := by
    rw [Entries.map_fst_of_collect _ he]
    exact Graph.nodup_names _
  -- Of several entries under one key the last would count, but the names are distinct.
  apply Std.ExtTreeMap.getElem?_ofList_of_mem (Std.compare_eq_iff_eq.mpr rfl) _ hm
  apply List.pairwise_filterMap.mpr
  refine (List.pairwise_map.mp hkeys).imp ?_
  intro first second hne found hf other ho he
  rw [(skipReason?_eq_some_iff _ _).mp hf, (skipReason?_eq_some_iff _ _).mp ho] at hne
  exact hne (Std.compare_eq_iff_eq.mp he)

theorem skipped_eq_some_iff {job : Job} {now : Instant} {total : Graph} {plan : Plan}
    (h : job.plan now total = .ok plan) (name : String) (reason : SkipReason) :
    plan.skipped[name]? = some reason ↔
      job.judge now (job.workingGraph total) name = .ok (.skip reason) := by
  refine ⟨fun hs => ?_, skipped_of_plan h name reason⟩
  obtain ⟨entries, he, hplan⟩ := (job.plan_eq_ok_iff now total plan).mp h
  have hm : name ∈ plan.skipped := Std.ExtTreeMap.mem_iff_isSome_getElem?.mpr (by rw [hs]; rfl)
  rw [hplan, Std.ExtTreeMap.mem_ofList, List.contains_iff_mem] at hm
  obtain ⟨⟨found, why⟩, hfound, rfl⟩ := List.mem_map.mp hm
  rw [mem_filterMap_skipReason?, Entries.mem_collect _ he] at hfound
  have hwhy : some why = some reason := (skipped_of_plan h _ why hfound.2).symm.trans hs
  rw [← Option.some.inj hwhy]
  exact hfound.2

theorem mem_skipped_iff {job : Job} {now : Instant} {total : Graph} {plan : Plan}
    (h : job.plan now total = .ok plan) (name : String) :
    name ∈ plan.skipped ↔
      ∃ reason, job.judge now (job.workingGraph total) name = .ok (.skip reason) := by
  simp only [Std.ExtTreeMap.mem_iff_isSome_getElem?, Option.isSome_iff_exists, skipped_eq_some_iff h]

end Rollout.Job

namespace Rollout.Plan

theorem batch_subset (plan : Plan) {name : String} (h : name ∈ plan.batch) : name ∈ plan.order := by
  unfold batch at h
  split at h
  · exact h
  · exact List.mem_of_mem_take h

theorem batch_sublist (plan : Plan) : plan.batch.Sublist plan.order := by
  unfold batch
  split
  · exact List.Sublist.refl _
  · exact List.take_sublist _ _

theorem batch_eq_nil_iff (plan : Plan) : plan.batch = [] ↔ plan.order = [] := by
  unfold batch
  split
  · rfl
  · rename_i h
    simp [h]

-- What a plan says of a name, if anything.
def verdict? (plan : Plan) (name : String) : Option Verdict :=
  if name ∈ plan.order then some .proceed else plan.skipped[name]?.map .skip

-- A plan says of every name what the job judged, and nothing of other names.
theorem verdict?_eq_some_iff {job : Job} {now : Instant} {total : Graph} {plan : Plan}
    (h : job.plan now total = .ok plan) (name : String) (verdict : Verdict) :
    plan.verdict? name = some verdict ↔
      job.judge now (job.workingGraph total) name = .ok verdict := by
  unfold verdict?
  split
  · rename_i hm
    rw [(Job.mem_order_of_plan h name).mp hm, Option.some.injEq, Except.ok.injEq]
  · rename_i hm
    rw [Job.mem_order_of_plan h] at hm
    cases verdict with
    | proceed => simp [hm]
    | skip reason => simp [Job.skipped_eq_some_iff h]

end Rollout.Plan
