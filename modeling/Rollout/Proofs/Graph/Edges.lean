import Rollout.Graph.Prune
import Rollout.Proofs.Graph.Paths

namespace Rollout

-- A loop in which every item adds to what can be seen, and takes nothing away.
theorem foldl_adds_iff {α β γ : Type} (seen : γ → β → Prop) (change : γ → α → γ) (adds : α → β → Prop)
    (hchange : ∀ state item b, seen (change state item) b ↔ seen state b ∨ adds item b)
    (items : List α) (state : γ) (b : β) :
    seen (items.foldl change state) b ↔ seen state b ∨ ∃ item ∈ items, adds item b := by
  induction items generalizing state with
  | nil => simp
  | cons item items ih => simp [ih, hchange, or_assoc]

namespace Graph

theorem mem_dependencies_iff_edge (graph : Graph) (source target : String) :
    source ∈ graph.dependencies target ↔ graph.Edge source target := Iff.rfl

theorem mem_dependents_iff_edge (graph : Graph) (source target : String) :
    target ∈ graph.dependents source ↔ graph.Edge source target := graph.coherent.mirror source target

theorem edge_add (graph : Graph) (name a b : String) (feedstock : Feedstock) :
    (graph.add name feedstock).Edge a b ↔ graph.Edge a b := by
  rw [Edge, Edge, dependencies_add]

theorem edge_addName (graph : Graph) (name a b : String) :
    (graph.addName name).Edge a b ↔ graph.Edge a b :=
  iff_of_eq (congrArg (a ∈ ·) (graph.vertices.upstream.neighbours_ensure name b))

theorem edge_connect (graph : Graph) (source target a b : String) :
    (graph.connect source target).Edge a b ↔ graph.Edge a b ∨ a = source ∧ b = target :=
  graph.vertices.mem_dependencies_connect source target b a

theorem edge_disconnect (graph : Graph) (source target a b : String) :
    (graph.disconnect source target).Edge a b ↔ graph.Edge a b ∧ ¬ (a = source ∧ b = target) :=
  graph.vertices.mem_dependencies_disconnect source target b a

theorem edge_remove (graph : Graph) (name a b : String) :
    (graph.remove name).Edge a b ↔ graph.Edge a b ∧ b ≠ name ∧ a ≠ name :=
  Vertices.mem_dependencies_remove graph.coherent name b a

theorem edge_foldl_iff {α : Type} (change : Graph → α → Graph) (adds : α → String → String → Prop)
    (hchange : ∀ graph item a b, (change graph item).Edge a b ↔ graph.Edge a b ∨ adds item a b)
    (items : List α) (graph : Graph) (a b : String) :
    (items.foldl change graph).Edge a b ↔ graph.Edge a b ∨ ∃ item ∈ items, adds item a b :=
  foldl_adds_iff (fun (graph : Graph) (edge : String × String) => graph.Edge edge.1 edge.2) change
    (fun item edge => adds item edge.1 edge.2)
    (fun graph item edge => hchange graph item edge.1 edge.2) items graph (a, b)

theorem payload?_foldl {α : Type} (change : Graph → α → Graph) (n : String)
    (hchange : ∀ graph item, (change graph item).payload? n = graph.payload? n) (items : List α)
    (graph : Graph) : (items.foldl change graph).payload? n = graph.payload? n := by
  induction items generalizing graph with
  | nil => rfl
  | cons item items ih => exact (ih (change graph item)).trans (hchange graph item)

end Graph

end Rollout
