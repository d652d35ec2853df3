import Rollout.Proofs.Graph.Cut
import Rollout.Proofs.Graph.Eliminated

namespace Rollout.Graph

-- The part of a graph on the names to keep, with the edges among them but no loops.
structure Induced (graph : Graph) (keep : String → Prop) (part : Graph) : Prop where
  name : ∀ n, n ∈ part.names ↔ n ∈ graph.names ∧ keep n
  payload : ∀ n ∈ part.names, part.payload? n = graph.payload? n
  edge : ∀ a b, part.Edge a b ↔ graph.Edge a b ∧ a ≠ b ∧ keep a ∧ keep b
  outputs : part.outputs = graph.outputs

-- Of a graph without loops that is kept as a whole nothing is lost.
theorem Induced.eq_self {graph part : Graph} {keep : String → Prop} (h : graph.Induced keep part)
    (hloop : ∀ a b, graph.Edge a b → a ≠ b) (hkeep : ∀ n ∈ graph.names, keep n) : part = graph := by
  have hname : ∀ n, n ∈ part.names ↔ n ∈ graph.names :=
    fun n => (h.name n).trans (and_iff_left_of_imp (hkeep n))
  refine eq_of_parts hname (fun n => ?_) (fun a b => (h.edge a b).trans ⟨And.left, fun he => ?_⟩)
    h.outputs
  · by_cases hn : n ∈ part.names
    · exact h.payload n hn
    · rw [payload?_eq_none_of_not_mem hn, payload?_eq_none_of_not_mem fun hm => hn ((hname n).mpr hm)]
  · exact ⟨he, hloop a b he, hkeep a he.source_mem, hkeep b he.target_mem⟩

section Passes

variable (graph : Graph) (names : NameSet)

theorem induced_dropWithDescendants :
    graph.Induced (fun n => ¬ graph.Downstream names n) (graph.dropWithDescendants names) := by
  have hname : ∀ n, n ∈ (graph.dropWithDescendants names).names ↔
      n ∈ graph.names ∧ ¬ graph.Downstream names n := by
    intro n
    rw [dropWithDescendants, mem_names_removeLoops, mem_names_pluckAll, Std.ExtTreeSet.mem_toList,
      mem_doomed_iff]
  refine ⟨hname, fun n hn => ?_, graph.edge_dropWithDescendants names, ?_⟩
  · rw [dropWithDescendants, payload?_removeLoops, payload?_pluckAll]
    rw [Std.ExtTreeSet.mem_toList, mem_doomed_iff]
    exact ((hname n).mp hn).2
  · rw [dropWithDescendants, outputs_removeLoops, outputs_pluckAll]

theorem induced_keepWithAncestors :
    graph.Induced (graph.Upstream names) (graph.keepWithAncestors names) := by
  have hname : ∀ n, n ∈ (graph.keepWithAncestors names).names ↔
      n ∈ graph.names ∧ graph.Upstream names n := by
    intro n
    rw [keepWithAncestors, mem_names_removeLoops, mem_names_pluckAll, mem_cut_iff, not_and, not_not]
    exact and_congr_right fun hm => ⟨fun h => h hm, fun h _ => h⟩
  refine ⟨hname, fun n hn => ?_, graph.edge_keepWithAncestors names, ?_⟩
  · rw [keepWithAncestors, payload?_removeLoops, payload?_pluckAll]
    exact fun hcut => ((graph.mem_cut_iff names n).mp hcut).2 ((hname n).mp hn).2
  · rw [keepWithAncestors, outputs_removeLoops, outputs_pluckAll]

-- A path to a target meets nothing that is cut off, so it stays, and loops on it can be left out.
theorem path_keepWithAncestors {name target : String} (ht : target ∈ names)
    (hp : graph.Path name target) : (graph.keepWithAncestors names).Path name target := by
  induction hp using Relation.ReflTransGen.head_induction_on with
  | refl => exact .refl
  | @head first next he hrest ih =>
      by_cases hloop : first = next
      · exact hloop ▸ ih
      · have hnext : graph.Upstream names next := ⟨target, ht, hrest⟩
        exact ih.head ((graph.edge_keepWithAncestors names first next).mpr
          ⟨he, hloop, hnext.step he, hnext⟩)

theorem dropWithDescendants_idem :
    (graph.dropWithDescendants names).dropWithDescendants names = graph.dropWithDescendants names := by
  have hdrop := graph.induced_dropWithDescendants names
  refine ((graph.dropWithDescendants names).induced_dropWithDescendants names).eq_self
    (fun a b he => ((hdrop.edge a b).mp he).2.1) ?_
  rintro n hn ⟨source, hs, hp⟩
  -- The names themselves are gone, so no path starts from them any more.
  have hgone : source ∉ (graph.dropWithDescendants names).names :=
    fun hm => ((hdrop.name source).mp hm).2 ⟨source, hs, .refl⟩
  rcases Relation.ReflTransGen.cases_head hp with rfl | ⟨next, he, -⟩
  · exact hgone hn
  · exact hgone he.source_mem

theorem keepWithAncestors_idem :
    (graph.keepWithAncestors names).keepWithAncestors names = graph.keepWithAncestors names := by
  have hkeep := graph.induced_keepWithAncestors names
  refine ((graph.keepWithAncestors names).induced_keepWithAncestors names).eq_self
    (fun a b he => ((hkeep.edge a b).mp he).2.1) fun n hn => ?_
  obtain ⟨target, ht, hp⟩ := ((hkeep.name n).mp hn).2
  exact ⟨target, ht, graph.path_keepWithAncestors names ht hp⟩

-- Cutting a graph down to what some names depend on, and dropping what depends on them, leave the
-- part of it on the names that remain. Whatever is plucked on the way, no edge comes about that
-- was not there, and the same again changes nothing.
theorem cuts_induce :
    graph.Induced (graph.Upstream names) (graph.keepWithAncestors names) ∧
    graph.Induced (fun n => ¬ graph.Downstream names n) (graph.dropWithDescendants names) ∧
    (graph.keepWithAncestors names).keepWithAncestors names = graph.keepWithAncestors names ∧
    (graph.dropWithDescendants names).dropWithDescendants names =
      graph.dropWithDescendants names :=
  ⟨graph.induced_keepWithAncestors names, graph.induced_dropWithDescendants names,
    graph.keepWithAncestors_idem names, graph.dropWithDescendants_idem names⟩

end Passes

end Rollout.Graph
