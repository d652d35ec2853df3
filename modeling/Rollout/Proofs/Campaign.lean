import Mathlib.Data.List.Perm.Subperm
import Rollout.Proofs.PlatformGraph.Extent
import Rollout.Proofs.Wave

namespace Rollout

-- A job of any kind before it is built on a graph.
inductive Campaign where
  | bookkeeping (settings : Settings)
  | wave (own : Wave)
  | swap (settings : Settings) (pair : Swap)
  | platforms (profile : Profile) (name : Option String) (scope : PlatformScope) (prLimit : Nat)
      (piggybacks : List Piggyback)

namespace Campaign

def job (campaign : Campaign) (graph : Graph) : Job :=
  match campaign with
  | .bookkeeping settings => ⟨settings, .bookkeeping⟩
  | .wave own => own.job graph
  | .swap settings pair => ⟨settings, .swap pair⟩
  | .platforms profile name scope prLimit piggybacks =>
    .rebuild profile name graph scope prLimit piggybacks

-- The identity of the job's migration of a feedstock. The graph has no part in it.
def identity (campaign : Campaign) (feedstock : Feedstock) : Identity :=
  (campaign.job Graph.empty).identity feedstock

-- A rebuild's identity is spelt out here, so that no graph of one is ever derived.
theorem identity_rebuild (profile : Profile) (name : Option String) (total : Graph)
    (scope : PlatformScope) (prLimit : Nat) (piggybacks : List Piggyback) :
    (Job.rebuild profile name total scope prLimit piggybacks).identity = fun feedstock =>
      .make profile.migratorName 1 none (some feedstock.branch) (.ofOption name) := rfl

theorem identity_job (campaign : Campaign) (graph : Graph) :
    (campaign.job graph).identity = campaign.identity := by
  cases campaign with
  | bookkeeping settings => rfl
  | wave own => rfl
  | swap settings pair => rfl
  | platforms profile name scope prLimit piggybacks =>
      have hempty := identity_rebuild profile name Graph.empty scope prLimit piggybacks
      exact (identity_rebuild profile name graph scope prLimit piggybacks).trans hempty.symm

-- The branch of a feedstock is all that an identity depends on, and the names of the
-- default branch are alike to it.
theorem identity_eq_of_branch (campaign : Campaign) (before after : Feedstock)
    (hbefore : before.branch ∈ defaultBranchNames) (hafter : after.branch ∈ defaultBranchNames) :
    campaign.identity after = campaign.identity before := by
  simp [identity, Job.identity, Identity.make, Option.filter, hbefore, hafter]

-- A job knows of its feedstocks what the shared graph knows.
theorem inherits_workingGraph (campaign : Campaign) (graph : Graph) :
    graph.Inherits ((campaign.job graph).workingGraph graph) := by
  cases campaign with
  | bookkeeping settings => exact fun _ _ hp => hp
  | wave own => exact fun _ _ hp => hp
  | swap settings pair => exact fun _ _ hp => hp
  | platforms profile name scope prLimit piggybacks => exact graph.inherits_platformGraph profile scope

-- How many attempts of the job's migration a feedstock has on record.
def count (campaign : Campaign) (feedstock : Feedstock) : Nat :=
  feedstock.tally (campaign.identity feedstock)

theorem eq_of_payload?_workingGraph {campaign : Campaign} {graph : Graph} {name : String}
    {found feedstock : Feedstock}
    (hfound : ((campaign.job graph).workingGraph graph).payload? name = some found)
    (hp : graph.payload? name = some feedstock) : found = feedstock :=
  Option.some.inj ((campaign.inherits_workingGraph graph name found hfound).symm.trans hp)

section Plan

variable {campaign : Campaign} {graph : Graph} {now : Instant} {plan : Plan} {name : String}
  {feedstock : Feedstock} (hplan : (campaign.job graph).plan now graph = .ok plan)
  (hp : graph.payload? name = some feedstock)

theorem verdict_of_count (hcount : 0 < campaign.count feedstock) (graph : Graph) (now : Instant) :
    (campaign.job graph).verdict now feedstock =
      .ok (.skip (if feedstock.archived then .archived else .alreadyMigrated)) := by
  apply Job.verdict_of_find?
  rw [campaign.identity_job graph, Feedstock.isSome_find?_iff]
  exact hcount

include hplan hp

theorem count_of_mem_order (hm : name ∈ plan.order) : campaign.count feedstock = 0 := by
  have hjudge := (Job.mem_order_of_plan hplan name).mp hm
  obtain ⟨found, hfound, hv⟩ := (Job.judge_eq_ok_iff _ _ _ _ _).mp hjudge
  obtain rfl := eq_of_payload?_workingGraph hfound hp
  obtain ⟨-, hf, -⟩ := (Job.screen_eq_none_iff _ _).mp (Job.screen_of_verdict hv)
  rw [campaign.identity_job graph, Feedstock.find?_eq_none_iff] at hf
  exact hf

theorem skipped_of_count (hcount : 0 < campaign.count feedstock)
    (hm : name ∈ ((campaign.job graph).workingGraph graph).names) :
    plan.skipped[name]? =
      some (if feedstock.archived then .archived else .alreadyMigrated) := by
  apply Job.skipped_of_plan hplan
  obtain ⟨verdict, hv⟩ := (Job.exists_plan_iff _ _ _).mp ⟨plan, hplan⟩ name hm
  obtain ⟨found, hfound, -⟩ := (Job.judge_eq_ok_iff _ _ _ _ _).mp hv
  obtain rfl := eq_of_payload?_workingGraph hfound hp
  exact (Job.judge_eq_ok_iff _ _ _ _ _).mpr ⟨found, hfound, verdict_of_count hcount graph now⟩

end Plan

-- What happens to the shared graph. The job is built anew for every plan. Any part of the
-- batch may be posted, in any order and with any hosting.
inductive Step (campaign : Campaign) : Graph → Graph → Prop where
  | plan (graph : Graph) (now : Instant) (plan : Plan) (posts : List (String × Option Hosting))
      (hplan : (campaign.job graph).plan now graph = .ok plan)
      (hposts : (posts.map Prod.fst).Subperm plan.batch) :
      Step campaign graph (graph.recordAll campaign.identity posts)
  | foreign (graph : Graph) (name : String) (attempt : Attempt)
      (hforeign : ∀ feedstock, graph.payload? name = some feedstock →
        attempt.matchesIdentity (campaign.identity feedstock) = false) :
      Step campaign graph (graph.revise name fun feedstock => feedstock.attempted attempt)
  | hosting (graph : Graph) (name : String) (index : Nat)
      (change : Option Hosting → Option Hosting) :
      Step campaign graph (graph.revise name fun feedstock => feedstock.rehosted index change)
  | status (graph : Graph) (name : String) (archived parsingError : Bool) (standing : Standing) :
      Step campaign graph (graph.revise name fun feedstock =>
        { feedstock with archived := archived, parsingError := parsingError, standing := standing })
  | branch (graph : Graph) (name branch : String) (hbranch : branch ∈ defaultBranchNames)
      (hdefault : ∀ feedstock, graph.payload? name = some feedstock →
        feedstock.branch ∈ defaultBranchNames) :
      Step campaign graph (graph.revise name fun feedstock => { feedstock with branch := branch })

-- A count stays what it is, or becomes one where it was zero.
def Counts (campaign : Campaign) (before after : Feedstock) : Prop :=
  campaign.count after = campaign.count before ∨
    campaign.count before = 0 ∧ campaign.count after = 1

-- The same names keep payloads, and their counts stay or become one.
def Evolves (campaign : Campaign) (before after : Graph) : Prop :=
  ∀ name, Option.Rel campaign.Counts (before.payload? name) (after.payload? name)

theorem Evolves.refl (campaign : Campaign) (graph : Graph) : campaign.Evolves graph graph := by
  intro name
  cases graph.payload? name with
  | none => exact .none
  | some feedstock => exact .some (.inl rfl)

theorem Counts.trans {campaign : Campaign} {first second third : Feedstock}
    (hleft : campaign.Counts first second) (hright : campaign.Counts second third) :
    campaign.Counts first third := by
  unfold Counts at *
  omega

theorem Evolves.trans {campaign : Campaign} {first second third : Graph}
    (hleft : campaign.Evolves first second) (hright : campaign.Evolves second third) :
    campaign.Evolves first third := by
  intro name
  have hl := hleft name
  have hr := hright name
  revert hl hr
  generalize first.payload? name = before
  generalize second.payload? name = between
  generalize third.payload? name = after
  intro hl hr
  cases hl with
  | none => exact hr
  | some hl =>
      cases hr with
      | some hr => exact .some (hl.trans hr)

theorem evolves_revise {campaign : Campaign} {graph : Graph} {target : String}
    {change : Feedstock → Feedstock}
    (hchange : ∀ feedstock, graph.payload? target = some feedstock →
      campaign.Counts feedstock (change feedstock)) :
    campaign.Evolves graph (graph.revise target change) := by
  intro name
  rw [Graph.payload?_revise]
  split
  · rename_i he
    subst he
    cases hp : graph.payload? target with
    | none => exact .none
    | some feedstock => exact .some (hchange feedstock hp)
  · exact Evolves.refl campaign graph name

theorem evolves_recordAll {campaign : Campaign} (posts : List (String × Option Hosting))
    {graph : Graph} (hnodup : (posts.map Prod.fst).Nodup)
    (hzero : ∀ post ∈ posts, ∀ feedstock, graph.payload? post.1 = some feedstock →
      campaign.count feedstock = 0) :
    campaign.Evolves graph (graph.recordAll campaign.identity posts) := by
  induction posts generalizing graph with
  | nil => exact Evolves.refl campaign graph
  | cons post posts ih =>
      obtain ⟨hout, hrest⟩ := List.nodup_cons.mp hnodup
      have hfirst : campaign.Evolves graph (graph.record campaign.identity post.1 post.2) := by
        apply evolves_revise
        intro feedstock hp
        have hbefore := hzero post List.mem_cons_self feedstock hp
        refine .inr ⟨hbefore, ?_⟩
        have hmatches := Attempt.matchesIdentity_ofIdentity (campaign.identity feedstock) post.2
        change (feedstock.attempted _).tally (campaign.identity feedstock) = 1
        rw [Feedstock.tally_attempted, if_pos hmatches]
        exact congrArg (· + 1) hbefore
      -- No name is posted twice, so the other posts still find a count of zero.
      refine hfirst.trans (ih hrest ?_)
      intro other ho feedstock hp
      have hne : post.1 ≠ other.1 := fun he => hout (he ▸ List.mem_map_of_mem ho)
      rw [Graph.record, Graph.payload?_revise, if_neg hne] at hp
      exact hzero other (List.mem_cons_of_mem _ ho) feedstock hp

theorem Step.evolves {campaign : Campaign} {before after : Graph}
    (h : campaign.Step before after) : campaign.Evolves before after := by
  cases h with
  | plan now plan posts hplan hposts =>
      obtain ⟨posted, hperm, hsub⟩ := hposts
      have hbatch : posted.Nodup :=
        (Job.nodup_order_of_plan hplan).sublist (hsub.trans plan.batch_sublist)
      apply evolves_recordAll posts (hperm.nodup hbatch)
      intro post hm feedstock hp
      have hposted := hperm.mem_iff.mpr (List.mem_map_of_mem hm)
      exact count_of_mem_order hplan hp (plan.batch_subset (hsub.subset hposted))
  | foreign name attempt hforeign =>
      apply evolves_revise
      intro feedstock hp
      refine .inl ?_
      change (feedstock.attempted attempt).tally (campaign.identity feedstock) = _
      rw [Feedstock.tally_attempted, hforeign feedstock hp]
      rfl
  | hosting name index change =>
      exact evolves_revise fun feedstock _ => .inl (feedstock.tally_rehosted index change _)
  | status name archived parsingError standing => exact evolves_revise fun feedstock _ => .inl rfl
  | branch name branch hbranch hdefault =>
      apply evolves_revise
      intro feedstock hp
      have hsame := campaign.identity_eq_of_branch feedstock { feedstock with branch := branch }
        (hdefault feedstock hp) hbranch
      refine .inl ?_
      rw [count, hsame]
      rfl

theorem evolves_of_run {campaign : Campaign} {start state : Graph}
    (hrun : Relation.ReflTransGen campaign.Step start state) : campaign.Evolves start state := by
  induction hrun with
  | refl => exact Evolves.refl campaign start
  | tail _ hstep ih => exact ih.trans hstep.evolves

-- No feedstock gets the job's identity on record twice. One that has it keeps it, is in no
-- later plan's order, and is passed over for one of two reasons.
theorem never_migrated_twice (campaign : Campaign) (start state : Graph)
    (honce : ∀ name feedstock, start.payload? name = some feedstock → campaign.count feedstock ≤ 1)
    (hrun : Relation.ReflTransGen campaign.Step start state) :
    (∀ name feedstock, state.payload? name = some feedstock → campaign.count feedstock ≤ 1) ∧
    ∀ name feedstock, state.payload? name = some feedstock → 0 < campaign.count feedstock →
      ∀ later, Relation.ReflTransGen campaign.Step state later →
        ∃ current, later.payload? name = some current ∧ campaign.count current = 1 ∧
          ∀ now,
            (campaign.job later).verdict now current =
              .ok (.skip (if current.archived then .archived else .alreadyMigrated)) ∧
            ∀ plan, (campaign.job later).plan now later = .ok plan → name ∉ plan.order ∧
              (name ∈ ((campaign.job later).workingGraph later).names → plan.skipped[name]? =
                some (if current.archived then .archived else .alreadyMigrated)) := by
  have hstate : ∀ name feedstock, state.payload? name = some feedstock →
      campaign.count feedstock ≤ 1 := by
    intro name feedstock hp
    have hrel := evolves_of_run hrun name
    rw [hp] at hrel
    cases hb : start.payload? name with
    | none => rw [hb] at hrel; cases hrel
    | some before =>
        rw [hb] at hrel
        have hbefore := honce name before hb
        cases hrel with
        | some hcounts => unfold Counts at hcounts; omega
  refine ⟨hstate, ?_⟩
  intro name feedstock hp hcount later hlater
  have hrel := evolves_of_run hlater name
  rw [hp] at hrel
  cases hc : later.payload? name with
  | none => rw [hc] at hrel; cases hrel
  | some current =>
      rw [hc] at hrel
      have hone : campaign.count current = 1 := by
        have hle := hstate name feedstock hp
        cases hrel with
        | some hcounts => unfold Counts at hcounts; omega
      have hpos : 0 < campaign.count current := by omega
      refine ⟨current, rfl, hone, fun now => ⟨verdict_of_count hpos later now, ?_⟩⟩
      intro plan hplan
      refine ⟨fun hm => ?_, skipped_of_count hplan hc hpos⟩
      have hzero := count_of_mem_order hplan hc hm
      omega

-- A feedstock is migrated, then archived and moved to the other default branch.
def books : Campaign := .bookkeeping (.ofVersion 0)

def lone : Graph := Graph.empty.add "a" (.named "a")

def booked : Graph := lone.recordAll books.identity [("a", none)]

def closed : Graph :=
  booked.revise "a" fun feedstock =>
    { feedstock with archived := true, parsingError := false, standing := .good }

def moved : Graph := closed.revise "a" fun feedstock => { feedstock with branch := "master" }

theorem step_booked (now : Instant) : books.Step lone booked := by
  have hproceed : (books.job lone).judge now lone "a" = .ok .proceed := rfl
  have hnames : lone.names = ["a"] := by decide
  have hworking : (books.job lone).workingGraph lone = lone := rfl
  obtain ⟨plan, hplan⟩ : ∃ plan, (books.job lone).plan now lone = .ok plan := by
    rw [Job.exists_plan_iff, hworking]
    intro name hm
    rw [hnames, List.mem_singleton] at hm
    exact ⟨.proceed, hm ▸ hproceed⟩
  have hbatch : plan.batch = plan.order := if_pos (Job.prLimit_of_plan hplan)
  have hm : "a" ∈ plan.batch := hbatch ▸ (Job.mem_order_of_plan hplan "a").mpr hproceed
  exact .plan lone now plan [("a", none)] hplan (List.singleton_subperm_iff.mpr hm)

theorem never_migrated_twice_lone :
    books.Step lone booked ∧ Relation.ReflTransGen books.Step booked moved ∧
      ∃ current, moved.payload? "a" = some current ∧ books.count current = 1 ∧
        ∀ now plan, (books.job moved).plan now moved = .ok plan → "a" ∉ plan.order ∧
          plan.skipped["a"]? = some .archived := by
  have hstep := step_booked ⟨0, 0⟩
  have hclosed : books.Step booked closed := .status booked "a" true false .good
  have hmoved : books.Step closed moved := by
    refine .branch closed "a" "master" (by decide) ?_
    intro feedstock hp
    obtain rfl : feedstock = _ := (Option.some.inj hp).symm
    decide
  have hlater : Relation.ReflTransGen books.Step booked moved := .head hclosed (.single hmoved)
  have honce : ∀ name feedstock, lone.payload? name = some feedstock →
      books.count feedstock ≤ 1 := by
    intro name feedstock hp
    rw [lone, Graph.payload?_add] at hp
    split at hp <;> cases hp
    decide
  obtain ⟨-, hcarried⟩ := never_migrated_twice books lone booked honce (.single hstep)
  obtain ⟨feedstock, hp, hcount⟩ : ∃ feedstock, booked.payload? "a" = some feedstock ∧
      0 < books.count feedstock := ⟨_, rfl, by decide⟩
  obtain ⟨current, hc, hone, hskip⟩ := hcarried "a" feedstock hp hcount moved hlater
  refine ⟨hstep, hlater, current, hc, hone, fun now plan hplan => ?_⟩
  obtain ⟨-, hplans⟩ := hskip now
  obtain ⟨hout, hskipped⟩ := hplans plan hplan
  refine ⟨hout, ?_⟩
  obtain rfl : current = _ := (Option.some.inj hc).symm
  exact hskipped (by decide)

end Campaign

end Rollout
