import Rollout.Proofs.Graph.Elimination
import Rollout.Proofs.Graph.Reach

namespace Rollout.Graph

-- Some of these names, or what depends on them.
def Downstream (graph : Graph) (names : NameSet) (name : String) : Prop :=
  ∃ source ∈ names, graph.Path source name

-- Some of these names, or what they depend on.
def Upstream (graph : Graph) (names : NameSet) (name : String) : Prop :=
  ∃ target ∈ names, graph.Path name target

theorem Downstream.step {graph : Graph} {names : NameSet} {a b : String}
    (h : graph.Downstream names a) (he : graph.Edge a b) : graph.Downstream names b := by
  obtain ⟨source, hs, hp⟩ := h
  exact ⟨source, hs, hp.tail he⟩

theorem Upstream.step {graph : Graph} {names : NameSet} {a b : String}
    (h : graph.Upstream names b) (he : graph.Edge a b) : graph.Upstream names a := by
  obtain ⟨target, ht, hp⟩ := h
  exact ⟨target, ht, hp.head he⟩

theorem mem_foldl_union (names : List String) (start : NameSet) (find : String → NameSet)
    (n : String) :
    n ∈ names.foldl (fun found name => found ∪ find name) start ↔
      n ∈ start ∨ ∃ name ∈ names, n ∈ find name :=
  foldl_adds_iff (fun (found : NameSet) n => n ∈ found) _ (fun name n => n ∈ find name)
    (fun _ _ _ => Std.ExtTreeSet.mem_union_iff) names start n

theorem mem_doomed_iff (graph : Graph) (excluded : NameSet) (n : String) :
    n ∈ excluded.toList.foldl (fun found name => found ∪ graph.descendants name) excluded ↔
      graph.Downstream excluded n := by
  simp only [mem_foldl_union, Std.ExtTreeSet.mem_toList, mem_descendants_iff]
  constructor
  · rintro (hm | ⟨source, hs, -, hp⟩)
    · exact ⟨n, hm, .refl⟩
    · exact ⟨source, hs, hp⟩
  · rintro ⟨source, hs, hp⟩
    by_cases he : n = source
    · exact .inl (he ▸ hs)
    · exact .inr ⟨source, hs, he, hp⟩

theorem mem_kept_iff (graph : Graph) (targets : NameSet) (n : String) :
    n ∈ targets.toList.foldl (fun found name => found ∪ graph.ancestors name) targets ↔
      graph.Upstream targets n := by
  simp only [mem_foldl_union, Std.ExtTreeSet.mem_toList, mem_ancestors_iff]
  constructor
  · rintro (hm | ⟨target, ht, -, hp⟩)
    · exact ⟨n, hm, .refl⟩
    · exact ⟨target, ht, hp⟩
  · rintro ⟨target, ht, hp⟩
    by_cases he : n = target
    · exact .inl (he ▸ ht)
    · exact .inr ⟨target, ht, he, hp⟩

section Drop

variable (graph : Graph) (excluded : NameSet)

theorem payload?_dropWithDescendants (name : String) (feedstock : Feedstock) :
    (graph.dropWithDescendants excluded).payload? name = some feedstock ↔
      graph.payload? name = some feedstock ∧ ¬ graph.Downstream excluded name := by
  rw [dropWithDescendants, payload?_removeLoops, payload?_pluckAll_eq_some_iff,
    Std.ExtTreeSet.mem_toList, mem_doomed_iff]

-- Whatever depends on a name that is dropped is dropped too, so no new edge comes about.
theorem edge_dropWithDescendants (a b : String) :
    (graph.dropWithDescendants excluded).Edge a b ↔
      graph.Edge a b ∧ a ≠ b ∧ ¬ graph.Downstream excluded a ∧ ¬ graph.Downstream excluded b := by
  rw [dropWithDescendants, edge_removeLoops, edge_pluckAll]
  simp only [Std.ExtTreeSet.mem_toList, mem_doomed_iff]
  constructor
  · rintro ⟨⟨ha, hb, hway⟩, hne⟩
    exact ⟨hway.step_of_closed (fun _ _ hd he => hd.step he) hb, hne, ha, hb⟩
  · rintro ⟨he, hne, ha, hb⟩
    exact ⟨⟨ha, hb, .single he⟩, hne⟩

end Drop

section Keep

variable (graph : Graph) (targets : NameSet)

theorem mem_cut_iff (n : String) :
    n ∈ graph.names.filter (fun name =>
        !(targets.toList.foldl (fun found name => found ∪ graph.ancestors name) targets).contains name) ↔
      n ∈ graph.names ∧ ¬ graph.Upstream targets n := by
  rw [List.mem_filter, Bool.not_eq_true', ← Bool.not_eq_true, Std.ExtTreeSet.contains_iff_mem,
    mem_kept_iff]

theorem payload?_keepWithAncestors (name : String) (feedstock : Feedstock) :
    (graph.keepWithAncestors targets).payload? name = some feedstock ↔
      graph.payload? name = some feedstock ∧ graph.Upstream targets name := by
  rw [keepWithAncestors, payload?_removeLoops, payload?_pluckAll_eq_some_iff, mem_cut_iff]
  refine and_congr_right fun hp => ?_
  rw [not_and, not_not]
  exact ⟨fun h => h (mem_names_of_payload? hp), fun h _ => h⟩

-- Whatever a name that is kept depends on is kept too, so no new edge comes about.
theorem edge_keepWithAncestors (a b : String) :
    (graph.keepWithAncestors targets).Edge a b ↔
      graph.Edge a b ∧ a ≠ b ∧ graph.Upstream targets a ∧ graph.Upstream targets b := by
  rw [keepWithAncestors, edge_removeLoops, edge_pluckAll]
  simp only [mem_cut_iff, not_and, not_not]
  constructor
  · rintro ⟨⟨ha, hb, hway⟩, hne⟩
    obtain ⟨first, hfirst⟩ := hway.exists_first
    obtain ⟨last, hlast⟩ := hway.exists_last
    have hua := ha hfirst.source_mem
    have hub := hb hlast.target_mem
    refine ⟨hway.step_of_closed ?_ fun hcut => hcut.2 hub, hne, ha hfirst.source_mem, hub⟩
    exact fun _ _ hcut he => ⟨he.target_mem, fun hu => hcut.2 (hu.step he)⟩
  · rintro ⟨he, hne, ha, hb⟩
    exact ⟨⟨fun _ => ha, fun _ => hb, .single he⟩, hne⟩

end Keep

end Rollout.Graph
