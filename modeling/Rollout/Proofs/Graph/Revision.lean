import Rollout.Proofs.Feedstock
import Rollout.Proofs.Graph.Paths

namespace Rollout.Graph

-- What is known of one feedstock changed. A name without payload stays as it is.
def revise (graph : Graph) (name : String) (change : Feedstock → Feedstock) : Graph :=
  match graph.payload? name with
  | some feedstock => graph.add name (change feedstock)
  | none => graph

theorem payload?_revise (graph : Graph) (name n : String) (change : Feedstock → Feedstock) :
    (graph.revise name change).payload? n =
      if name = n then (graph.payload? n).map change else graph.payload? n := by
  unfold revise
  by_cases he : name = n
  · subst he
    cases h : graph.payload? name with
    | none => simp [h]
    | some feedstock => simp [payload?_add]
  · rw [if_neg he]
    cases graph.payload? name with
    | none => rfl
    | some feedstock => simp [payload?_add, he]

theorem mem_names_revise (graph : Graph) (name n : String) (change : Feedstock → Feedstock) :
    n ∈ (graph.revise name change).names ↔ n ∈ graph.names := by
  unfold revise
  cases h : graph.payload? name with
  | none => rfl
  | some feedstock =>
      rw [mem_names_add]
      exact ⟨fun hn => hn.elim (fun he => he ▸ mem_names_of_payload? h) id, .inr⟩

theorem dependencies_revise (graph : Graph) (name n : String) (change : Feedstock → Feedstock) :
    (graph.revise name change).dependencies n = graph.dependencies n := by
  unfold revise
  cases graph.payload? name with
  | none => rfl
  | some feedstock => exact graph.dependencies_add name n _

theorem edge_revise (graph : Graph) (name : String) (change : Feedstock → Feedstock) :
    (graph.revise name change).Edge = graph.Edge := by
  funext source target
  rw [Edge, Edge, dependencies_revise]

-- What the payload under a name was before a revision, and what it is after it.
theorem exists_of_payload?_revise {graph : Graph} {name n : String} {change : Feedstock → Feedstock}
    {after : Feedstock} (h : (graph.revise name change).payload? n = some after) :
    ∃ before, graph.payload? n = some before ∧
      (name = n ∧ after = change before ∨ name ≠ n ∧ after = before) := by
  rw [payload?_revise] at h
  split at h
  · rename_i he
    obtain ⟨before, hb, rfl⟩ := Option.map_eq_some_iff.mp h
    exact ⟨before, hb, .inl ⟨he, rfl⟩⟩
  · rename_i he
    exact ⟨after, h, .inr ⟨he, rfl⟩⟩

-- A pull request under a feedstock's identity put on record.
def record (graph : Graph) (identify : Feedstock → Identity) (name : String)
    (hosting : Option Hosting) : Graph :=
  graph.revise name fun feedstock => feedstock.attempted (.ofIdentity (identify feedstock) hosting)

def recordAll (graph : Graph) (identify : Feedstock → Identity)
    (posts : List (String × Option Hosting)) : Graph :=
  posts.foldl (fun graph post => graph.record identify post.1 post.2) graph

end Rollout.Graph
