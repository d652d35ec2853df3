import Mathlib.Data.List.Perm.Subperm
import Rollout.Proofs.Wave

namespace Rollout.Wave

-- What a rollout goes through: the shared graph and the clock.
structure State where
  graph : Graph
  now : Instant

-- The job is built anew for every plan, with any window. Any part of the batch may be
-- posted, in any order and with any hosting.
inductive Step (wave : Wave) : State → State → Prop where
  | plan (state : State) (window : Int) (plan : Plan) (posts : List (String × Option Hosting))
      (hplan : ({ wave with window := window }.job state.graph).plan state.now state.graph = .ok plan)
      (hposts : (posts.map Prod.fst).Subperm plan.batch) :
      Step wave state { state with graph := state.graph.recordAll wave.identity posts }
  | settle (state : State) (name : String) (index : Nat) (settled : PullState)
      (hsettled : settled = .closed ∨ settled = .merged) :
      Step wave state { state with
        graph := state.graph.revise name fun feedstock =>
          feedstock.rehosted index (Hosting.withState settled) }
  | time (state : State) (now : Instant) : Step wave state { state with now := now }

-- What a feedstock may turn into during a rollout. A settled pull request stays settled.
structure Advances (wave : Wave) (before after : Feedstock) : Prop where
  name : after.name = before.name
  feedstockName : after.feedstockName = before.feedstockName
  archived : after.archived = before.archived
  identity : wave.identity after = wave.identity before
  settled : ∀ attempt, before.find? (wave.identity before) = some attempt → attempt.IsSettled →
    ∃ later, after.find? (wave.identity before) = some later ∧ later.IsSettled

theorem advances_attempted (wave : Wave) (feedstock : Feedstock) (attempt : Attempt) :
    wave.Advances feedstock (feedstock.attempted attempt) := by
  refine ⟨rfl, rfl, rfl, rfl, ?_⟩
  intro first hfirst hsettled
  refine ⟨first, ?_, hsettled⟩
  rw [Feedstock.find?_attempted, hfirst]
  rfl

theorem advances_rehosted (wave : Wave) (feedstock : Feedstock) (index : Nat) (settled : PullState)
    (hs : settled = .closed ∨ settled = .merged) :
    wave.Advances feedstock (feedstock.rehosted index (Hosting.withState settled)) := by
  refine ⟨rfl, rfl, rfl, rfl, ?_⟩
  intro first hfirst hsettled
  rcases feedstock.find?_rehosted index (Hosting.withState settled) (wave.identity feedstock)
    with hsame | hchanged
  · exact ⟨first, hsame.trans hfirst, hsettled⟩
  · rw [hfirst] at hchanged
    refine ⟨_, hchanged, ?_⟩
    rcases hs with rfl | rfl
    · exact .inl rfl
    · exact .inr rfl

-- What allowed a feedstock to be migrated: it waits for nothing, may go ahead of stale
-- dependencies, or has nothing left to wait for.
def Approved (wave : Wave) (graph : Graph) (name : String) (feedstock : Feedstock) : Prop :=
  (wave.gate graph).Exempt name ∨ (wave.gate graph).isPinning feedstock = true ∨
    (wave.gate graph).Ready wave.identity name

theorem approved_of_window {wave : Wave} {graph : Graph} {name : String} {feedstock : Feedstock}
    {window : Int} (h : { wave with window := window }.Approved graph name feedstock) :
    wave.Approved graph name feedstock := by
  rcases h with he | hp | hr
  · exact .inl he
  · exact .inr (.inl hp)
  · refine .inr (.inr fun dependency upstream ha => ?_)
    exact hr dependency upstream ⟨ha.edge, ha.payload, ha.active, ha.heeded⟩

structure Safe (wave : Wave) (graph : Graph) : Prop where
  named : Named graph
  approved : ∀ name feedstock, graph.payload? name = some feedstock →
    (feedstock.find? (wave.identity feedstock)).isSome = true → wave.Approved graph name feedstock

section Revision

variable {wave : Wave} {graph : Graph} {target : String} {change : Feedstock → Feedstock}
  (hchange : ∀ feedstock, graph.payload? target = some feedstock →
    wave.Advances feedstock (change feedstock))
include hchange

theorem ready_revise {name : String} (h : (wave.gate graph).Ready wave.identity name) :
    (wave.gate (graph.revise target change)).Ready wave.identity name := by
  intro dependency upstream ha
  have hedge : graph.Edge dependency name := by
    have he : dependency ∈ (graph.revise target change).dependencies name := ha.edge
    rwa [Graph.dependencies_revise] at he
  obtain ⟨before, hb, ⟨rfl, rfl⟩ | ⟨-, rfl⟩⟩ := Graph.exists_of_payload?_revise ha.payload
  · have hadvances := hchange before hb
    obtain ⟨attempt, hf, hs⟩ :=
      h _ before ⟨hedge, hb, hadvances.archived.symm.trans ha.active, ha.heeded⟩
    rw [hadvances.identity]
    exact hadvances.settled attempt hf hs
  · exact h dependency upstream ⟨hedge, hb, ha.active, ha.heeded⟩

theorem approved_revise {name : String} {before after : Feedstock}
    (h : wave.Approved graph name before) (hname : after.name = before.name)
    (hfeedstock : after.feedstockName = before.feedstockName) :
    wave.Approved (graph.revise target change) name after := by
  rcases h with he | hp | hr
  · exact .inl he
  · refine .inr (.inl ?_)
    rw [Gate.isPinning, hname, hfeedstock]
    exact hp
  · exact .inr (.inr (ready_revise hchange hr))

theorem Safe.revise (h : wave.Safe graph)
    (hcarries : ∀ feedstock, graph.payload? target = some feedstock →
      ((change feedstock).find? (wave.identity feedstock)).isSome = true →
      (feedstock.find? (wave.identity feedstock)).isSome = true ∨
        wave.Approved graph target feedstock) :
    wave.Safe (graph.revise target change) := by
  refine ⟨named_revise (fun feedstock hp => (hchange feedstock hp).feedstockName) h.named, ?_⟩
  intro name after hp hf
  obtain ⟨before, hb, ⟨rfl, rfl⟩ | ⟨-, rfl⟩⟩ := Graph.exists_of_payload?_revise hp
  · have hadvances := hchange before hb
    rw [hadvances.identity] at hf
    have happroved : wave.Approved graph target before := by
      rcases hcarries before hb hf with hbefore | ha
      · exact h.approved target before hb hbefore
      · exact ha
    exact approved_revise hchange happroved hadvances.name hadvances.feedstockName
  · exact approved_revise hchange (h.approved name after hb hf) rfl rfl

end Revision

theorem Safe.recordAll {wave : Wave} (posts : List (String × Option Hosting)) {graph : Graph}
    (h : wave.Safe graph)
    (hposts : ∀ post ∈ posts, ∀ feedstock, graph.payload? post.1 = some feedstock →
      wave.Approved graph post.1 feedstock) :
    wave.Safe (graph.recordAll wave.identity posts) := by
  induction posts generalizing graph with
  | nil => exact h
  | cons post posts ih =>
      have hchange : ∀ feedstock, graph.payload? post.1 = some feedstock →
          wave.Advances feedstock
            (feedstock.attempted (.ofIdentity (wave.identity feedstock) post.2)) :=
        fun feedstock _ => wave.advances_attempted feedstock _
      apply ih
      -- What the plan approved before any post stays approved after the first of them.
      · exact h.revise hchange fun feedstock hp _ => .inr (hposts post List.mem_cons_self feedstock hp)
      · intro other ho after hp
        obtain ⟨before, hb, ⟨he, rfl⟩ | ⟨-, rfl⟩⟩ := Graph.exists_of_payload?_revise hp
        · exact approved_revise hchange (hposts other (List.mem_cons_of_mem _ ho) before hb) rfl rfl
        · exact approved_revise hchange (hposts other (List.mem_cons_of_mem _ ho) after hb) rfl rfl

theorem approved_of_mem_batch {wave : Wave} {graph : Graph} {now : Instant} {plan : Plan}
    (hnamed : Named graph) (hplan : (wave.job graph).plan now graph = .ok plan) {name : String}
    (hm : name ∈ plan.batch) {feedstock : Feedstock} (hp : graph.payload? name = some feedstock) :
    wave.Approved graph name feedstock := by
  obtain ⟨found, hfound, -, hverdict⟩ := (mem_order_iff hplan name).mp (plan.batch_subset hm)
  obtain rfl : found = feedstock := Option.some.inj (hfound.symm.trans hp)
  obtain rfl := feedstockName_of_named hnamed hp
  by_cases he : (wave.gate graph).Exempt found.feedstockName
  · exact .inl he
  · cases hpin : (wave.gate graph).isPinning found with
    | true => exact .inr (.inl hpin)
    | false => exact .inr (.inr (Gate.ready_of_verdict hverdict he hpin))

theorem Safe.step {wave : Wave} {before after : State} (h : wave.Safe before.graph)
    (hstep : wave.Step before after) : wave.Safe after.graph := by
  cases hstep with
  | plan window plan posts hplan hposts =>
      refine h.recordAll posts fun post hpost feedstock hp => ?_
      have hbatch := hposts.subset (List.mem_map_of_mem hpost)
      exact approved_of_window (approved_of_mem_batch h.named hplan hbatch hp)
  | settle name index settled hsettled =>
      -- Settling puts no identity on record, so nobody carries one that did not before.
      refine h.revise (fun feedstock _ => wave.advances_rehosted feedstock index settled hsettled) ?_
      intro feedstock _ hf
      rw [Feedstock.isSome_find?_iff, Feedstock.tally_rehosted, ← Feedstock.isSome_find?_iff] at hf
      exact .inl hf
  | time now => exact h

theorem Safe.run {wave : Wave} {start state : State} (h : wave.Safe start.graph)
    (hrun : Relation.ReflTransGen wave.Step start state) : wave.Safe state.graph := by
  induction hrun with
  | refl => exact h
  | tail _ hstep ih => exact ih.step hstep

-- Whoever carries the identity at some point of a rollout, and had to wait for something
-- to get it, has only settled dependencies, apart from archived and ignored ones.
theorem settled_dependencies_of_reachable (wave : Wave) (start state : State)
    (hnamed : Named start.graph)
    (hfresh : ∀ name feedstock, start.graph.payload? name = some feedstock →
      feedstock.find? (wave.identity feedstock) = none)
    (hrun : Relation.ReflTransGen wave.Step start state) (name : String) (feedstock : Feedstock)
    (hp : state.graph.payload? name = some feedstock)
    (hcarries : (feedstock.find? (wave.identity feedstock)).isSome = true)
    (htop : name ∉ wave.topLevel) (hcycles : name ∉ wave.cycles)
    (hname : feedstock.name ≠ wave.pinning) (hfeedstock : feedstock.feedstockName ≠ wave.pinning)
    (dependency : String) (he : state.graph.Edge dependency name) :
    ∃ upstream, state.graph.payload? dependency = some upstream ∧
      (upstream.archived = true ∨ (wave.gate state.graph).ignores name dependency = true ∨
        ∃ attempt, upstream.find? (wave.identity upstream) = some attempt ∧ attempt.IsSettled) := by
  have hstart : wave.Safe start.graph :=
    ⟨hnamed, fun name feedstock hp hf => by simp [hfresh name feedstock hp] at hf⟩
  have hsafe := hstart.run hrun
  obtain ⟨upstream, hup⟩ := payload?_of_edge hsafe.named he
  refine ⟨upstream, hup, ?_⟩
  have hready : (wave.gate state.graph).Ready wave.identity name := by
    rcases hsafe.approved name feedstock hp hcarries with hexempt | hpin | hready
    · exact absurd hexempt (not_or.mpr ⟨htop, hcycles⟩)
    · simp [Gate.isPinning, gate, hname, hfeedstock] at hpin
    · exact hready
  cases ha : upstream.archived with
  | true => exact .inl rfl
  | false =>
      cases hi : (wave.gate state.graph).ignores name dependency with
      | true => exact .inr (.inl rfl)
      | false => exact .inr (.inr (hready dependency upstream ⟨he, hup, ha, hi⟩))

theorem Step.post (wave : Wave) {graph : Graph} (now : Instant) (name : String)
    (feedstock : Feedstock) (hosting : Option Hosting) (hnamed : Named graph)
    (hlimit : wave.settings.prLimit = 0) (hp : graph.payload? name = some feedstock)
    (hv : (wave.job graph).verdict now feedstock = .ok .proceed) :
    wave.Step ⟨graph, now⟩ ⟨graph.record wave.identity name hosting, now⟩ := by
  obtain ⟨plan, hplan⟩ := wave.exists_plan hnamed now
  have hm : name ∈ plan.order :=
    (Job.mem_order_of_plan hplan name).mpr ((Job.judge_eq_ok_iff _ _ _ _ _).mpr ⟨feedstock, hp, hv⟩)
  have hbatch : plan.batch = plan.order := if_pos ((Job.prLimit_of_plan hplan).trans hlimit)
  exact .plan ⟨graph, now⟩ wave.window plan [(name, hosting)] hplan
    (List.singleton_subperm_iff.mpr (hbatch ▸ hm))

-- `b` depends on `a`. First `a` is migrated and merged, then `b` is migrated.
def chain : Graph := ((Graph.empty.add "a" (.named "a")).add "b" (.named "b")).connect "a" "b"

def posted : Graph := chain.record plain.identity "a" none

def merged : Graph :=
  posted.revise "a" fun feedstock => feedstock.rehosted 0 (Hosting.withState .merged)

def rolled : Graph := merged.record plain.identity "b" none

theorem run_chain (now : Instant) :
    Relation.ReflTransGen plain.Step ⟨chain, now⟩ ⟨rolled, now⟩ := by
  have hposted : plain.Step ⟨chain, now⟩ ⟨posted, now⟩ :=
    .post plain now "a" (.named "a") none (by decide) rfl (by decide) rfl
  have hmerged : plain.Step ⟨posted, now⟩ ⟨merged, now⟩ :=
    .settle ⟨posted, now⟩ "a" 0 .merged (.inr rfl)
  have hrolled : plain.Step ⟨merged, now⟩ ⟨rolled, now⟩ :=
    .post plain now "b" (.named "b") none (by decide) rfl (by decide) rfl
  exact .head hposted (.head hmerged (.single hrolled))

theorem fresh_chain (name : String) (feedstock : Feedstock)
    (hp : chain.payload? name = some feedstock) :
    feedstock.find? (plain.identity feedstock) = none := by
  simp only [chain, Graph.payload?_connect, Graph.payload?_add] at hp
  split at hp
  · cases hp
    rfl
  · split at hp <;> cases hp
    rfl

theorem settled_dependencies_chain :
    Relation.ReflTransGen plain.Step ⟨chain, ⟨0, 0⟩⟩ ⟨rolled, ⟨0, 0⟩⟩ ∧ rolled.Edge "a" "b" ∧
      ∃ feedstock, rolled.payload? "b" = some feedstock ∧
        (feedstock.find? (plain.identity feedstock)).isSome = true ∧
        ∃ upstream, rolled.payload? "a" = some upstream ∧
          (upstream.archived = true ∨ (plain.gate rolled).ignores "b" "a" = true ∨
            ∃ attempt, upstream.find? (plain.identity upstream) = some attempt ∧
              attempt.IsSettled) := by
  have hb : rolled.payload? "b" = some ((Feedstock.named "b").attempted
      (.ofIdentity (plain.identity (.named "b")) none)) := by decide
  have he : rolled.Edge "a" "b" := by decide
  refine ⟨run_chain _, he, _, hb, by decide, ?_⟩
  exact settled_dependencies_of_reachable plain ⟨chain, ⟨0, 0⟩⟩ ⟨rolled, ⟨0, 0⟩⟩ (by decide)
    fresh_chain (run_chain _) "b" _ hb (by decide) (by decide) (by decide) (by decide) (by decide)
    "a" he

end Rollout.Wave
