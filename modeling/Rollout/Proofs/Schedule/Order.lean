import Rollout.Proofs.Schedule.Walk

namespace Rollout.Graph

theorem Walking.start (graph : Graph) : graph.Walking [] ⟨graph.nameSet, []⟩ := by
  constructor
  · exact List.nodup_nil
  · intro name
    simp [begun, graph.mem_nameSet]
  · simp [begun]
  · simp
  · simp
  · simp
  · intro name earlier hs
    exact absurd (List.suffix_nil.mp hs) (List.cons_ne_nil _ _)

theorem Walking.visit {graph : Graph} {progress : Progress} (h : graph.Walking [] progress)
    (name : String) : graph.Walking [] (graph.visit progress name) := by
  unfold Graph.visit
  split
  · rename_i hname
    have hstart : graph.Walking [graph.visitOf name]
        { progress with unvisited := progress.unvisited.erase name } :=
      h.push name hname rfl (by simp) (by simp) (List.IsChain.singleton name)
    exact hstart.walk
  · exact h

theorem mem_unvisited_of_visit (graph : Graph) (progress : Progress) (name other : String)
    (hm : other ∈ (graph.visit progress name).unvisited) :
    other ∈ progress.unvisited ∧ other ≠ name := by
  unfold Graph.visit at hm
  split at hm
  · have he := Std.ExtTreeSet.mem_erase.mp (graph.mem_unvisited_of_walk _ _ other hm)
    exact ⟨he.2, fun h => he.1 (by simp [h])⟩
  · rename_i hname
    exact ⟨hm, fun h => hname (h ▸ hm)⟩

theorem Walking.visits {graph : Graph} (seeds : List String) {progress : Progress}
    (h : graph.Walking [] progress) : graph.Walking [] (seeds.foldl graph.visit progress) := by
  induction seeds generalizing progress with
  | nil => exact h
  | cons seed seeds ih => exact ih (h.visit seed)

theorem mem_unvisited_of_visits (graph : Graph) (seeds : List String) (progress : Progress)
    (name : String) (hm : name ∈ (seeds.foldl graph.visit progress).unvisited) :
    name ∈ progress.unvisited ∧ name ∉ seeds := by
  induction seeds generalizing progress with
  | nil => exact ⟨hm, List.not_mem_nil⟩
  | cons seed seeds ih =>
      obtain ⟨hvisit, hseeds⟩ := ih _ hm
      obtain ⟨hprogress, hseed⟩ := graph.mem_unvisited_of_visit progress seed name hvisit
      exact ⟨hprogress, fun hc => (List.mem_cons.mp hc).elim hseed hseeds⟩

theorem schedule_eq_reverse (graph : Graph) (topLevel cycles : NameSet) :
    ∃ done : List String, graph.schedule topLevel cycles = done.reverse ∧ done.Nodup ∧
      (∀ name, name ∈ done ↔ name ∈ graph.names) ∧ graph.Ordered done := by
  have hwalk := (Walking.start graph).visits
    ((topLevel.toList ++ cycles.toList).filter graph.contains ++ graph.names)
  refine ⟨_, rfl, hwalk.nodup, ?_, hwalk.ordered⟩
  intro name
  rw [hwalk.cover name]
  constructor
  · exact .inl
  · rintro (hd | hu)
    · exact hd
    -- The graph's own names are the last seeds, and leave nothing unvisited.
    · obtain ⟨hs, hseeds⟩ := graph.mem_unvisited_of_visits _ _ name hu
      rw [mem_nameSet] at hs
      exact absurd (List.mem_append_right _ hs) hseeds

theorem nodup_schedule (graph : Graph) (topLevel cycles : NameSet) :
    (graph.schedule topLevel cycles).Nodup := by
  obtain ⟨done, hs, hn, -⟩ := graph.schedule_eq_reverse topLevel cycles
  rw [hs]
  exact List.pairwise_reverse.mpr (hn.imp Ne.symm)

theorem mem_schedule (graph : Graph) (topLevel cycles : NameSet) (name : String) :
    name ∈ graph.schedule topLevel cycles ↔ name ∈ graph.names := by
  obtain ⟨done, hs, -, hm, -⟩ := graph.schedule_eq_reverse topLevel cycles
  rw [hs, List.mem_reverse, hm]

theorem schedule_idxOf_lt (graph : Graph) (topLevel cycles : NameSet) (source target : String)
    (he : graph.Edge source target) (hne : source ≠ target) (hpath : ¬ graph.Path target source) :
    (graph.schedule topLevel cycles).idxOf source < (graph.schedule topLevel cycles).idxOf target := by
  obtain ⟨done, hs, hn, hm, hordered⟩ := graph.schedule_eq_reverse topLevel cycles
  obtain ⟨later, earlier, rfl⟩ := List.append_of_mem ((hm target).mpr he.target_mem)
  have hsource : source ∈ earlier.reverse := List.mem_reverse.mpr
    (hordered target earlier (List.suffix_append _ _) source he hne hpath)
  have htarget : target ∉ earlier.reverse := by
    rw [List.mem_reverse]
    exact (List.nodup_cons.mp (List.nodup_append.mp hn).2.1).1
  rw [hs, List.reverse_append, List.reverse_cons, List.append_assoc, List.idxOf_append,
    if_pos hsource, List.idxOf_append, if_neg htarget]
  have hlt := List.idxOf_lt_length_of_mem hsource
  omega

-- Every name of the graph is listed once, whatever the seeds, and a dependency comes
-- before what depends on it unless the two lie on a common cycle.
theorem schedule_complete_dependencies_first (graph : Graph) (topLevel cycles : NameSet) :
    (graph.schedule topLevel cycles).Nodup ∧
    (∀ name, name ∈ graph.schedule topLevel cycles ↔ graph.contains name = true) ∧
    ∀ source target, graph.Edge source target → source ≠ target → ¬ graph.Path target source →
      (graph.schedule topLevel cycles).idxOf source <
        (graph.schedule topLevel cycles).idxOf target := by
  refine ⟨graph.nodup_schedule topLevel cycles, ?_, graph.schedule_idxOf_lt topLevel cycles⟩
  intro name
  rw [mem_schedule, mem_names]

-- A cycle of `x` and `y` between a root and a leaf.
def ring : Graph :=
  (((Graph.empty.connect "root" "x").connect "x" "y").connect "y" "x").connect "y" "leaf"

-- The walk starts in the middle of the cycle, and a seed is no name of the graph.
theorem schedule_ring :
    ring.Edge "y" "leaf" ∧ ¬ ring.Path "leaf" "y" ∧
      (ring.schedule (NameSet.ofList ["ghost", "y"]) (NameSet.ofList ["x"])).idxOf "y" <
        (ring.schedule (NameSet.ofList ["ghost", "y"]) (NameSet.ofList ["x"])).idxOf "leaf" := by
  have he : ring.Edge "y" "leaf" := by decide
  have hpath : ¬ ring.Path "leaf" "y" := fun hp =>
    absurd (hp.mem_of_closed ["leaf"] (by decide) (by decide)) (by decide)
  exact ⟨he, hpath, (schedule_complete_dependencies_first ring _ _).2.2 "y" "leaf" he (by decide) hpath⟩

example : ring.schedule (NameSet.ofList ["ghost", "y"]) (NameSet.ofList ["x"]) =
    ["root", "x", "y", "leaf"] := by cbv

end Rollout.Graph
