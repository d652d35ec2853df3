import Rollout.Proofs.Graph.Revision
import Rollout.Proofs.Plan.Faults

namespace Rollout

-- A job that waits for dependencies, before it is built on a graph.
structure Wave where
  settings : Settings
  name : Option String
  topLevel : NameSet
  cycles : NameSet
  ignored : NameMap NameSet
  -- nanoseconds after which an open pull request counts as stale
  window : Int
  pinning : String

namespace Wave

def gate (wave : Wave) (graph : Graph) : Gate :=
  ⟨graph, wave.topLevel, wave.cycles, wave.ignored, wave.window, wave.pinning⟩

def job (wave : Wave) (graph : Graph) : Job := ⟨wave.settings, .wave wave.name (wave.gate graph)⟩

-- The identity of the job's migration of a feedstock. The graph has no part in it.
def identity (wave : Wave) (feedstock : Feedstock) : Identity :=
  (wave.job Graph.empty).identity feedstock

-- A job that declares nothing.
def plain : Wave := ⟨.ofVersion 0, none, ∅, ∅, ∅, Gate.defaultWindow, Gate.defaultPinning⟩

-- Every name of the graph has a payload, and the payload has that name.
def Named (graph : Graph) : Prop :=
  ∀ name ∈ graph.names, ∃ feedstock, graph.payload? name = some feedstock ∧
    feedstock.feedstockName = name

instance (graph : Graph) : Decidable (Named graph) :=
  decidable_of_iff (∀ name ∈ graph.names,
      (graph.payload? name).any (fun feedstock => feedstock.feedstockName == name) = true) <| by
    simp [Named, Option.any_eq_true]

theorem named_revise {graph : Graph} {target : String} {change : Feedstock → Feedstock}
    (hname : ∀ feedstock, graph.payload? target = some feedstock →
      (change feedstock).feedstockName = feedstock.feedstockName)
    (h : Named graph) : Named (graph.revise target change) := by
  intro name hm
  rw [Graph.mem_names_revise] at hm
  obtain ⟨feedstock, hp, hn⟩ := h name hm
  rw [Graph.payload?_revise, hp]
  by_cases he : target = name
  · subst he
    exact ⟨_, if_pos rfl, (hname feedstock hp).trans hn⟩
  · exact ⟨feedstock, if_neg he, hn⟩

theorem exists_payload?_of_named {graph : Graph} (h : Named graph) (name : String)
    (hm : name ∈ graph.names) : ∃ feedstock, graph.payload? name = some feedstock := by
  obtain ⟨feedstock, hp, -⟩ := h name hm
  exact ⟨feedstock, hp⟩

theorem feedstockName_of_named {graph : Graph} (h : Named graph) {name : String}
    {feedstock : Feedstock} (hp : graph.payload? name = some feedstock) :
    feedstock.feedstockName = name := by
  obtain ⟨known, hk, hname⟩ := h name (Graph.mem_names_of_payload? hp)
  obtain rfl : known = feedstock := Option.some.inj (hk.symm.trans hp)
  exact hname

theorem payload?_of_edge {graph : Graph} (h : Named graph) {source target : String}
    (he : graph.Edge source target) : ∃ upstream, graph.payload? source = some upstream :=
  exists_payload?_of_named h source he.source_mem

theorem gate?_job (wave : Wave) (graph : Graph) :
    (wave.job graph).gate? = some (wave.gate graph) := rfl

theorem exists_plan (wave : Wave) {graph : Graph} (h : Named graph) (now : Instant) :
    ∃ plan, (wave.job graph).plan now graph = .ok plan :=
  Job.exists_plan_of_gate? (wave.gate?_job graph) now graph (exists_payload?_of_named h)

theorem mem_order_iff {wave : Wave} {graph : Graph} {now : Instant} {plan : Plan}
    (h : (wave.job graph).plan now graph = .ok plan) (name : String) :
    name ∈ plan.order ↔ ∃ feedstock, graph.payload? name = some feedstock ∧
      (wave.job graph).screen feedstock = none ∧
      (wave.gate graph).verdict wave.identity now feedstock = .ok .proceed :=
  Job.mem_order_iff_of_gate? (wave.gate?_job graph) h name

end Wave

end Rollout
