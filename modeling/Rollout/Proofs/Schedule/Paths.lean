import Mathlib.Data.List.Sort
import Rollout.Proofs.Graph.Loops
import Rollout.Proofs.Schedule.Order

namespace Rollout.Graph

-- A path whose names are all among these.
def PathAmong (graph : Graph) (names : List String) : String → String → Prop :=
  Relation.ReflTransGen fun source target =>
    graph.Edge source target ∧ source ∈ names ∧ target ∈ names

theorem LoopsOnly.schedule_idxOf_lt {graph : Graph} (h : graph.LoopsOnly)
    (topLevel cycles : NameSet) {source target : String} (hp : graph.Path source target)
    (hne : source ≠ target) :
    (graph.schedule topLevel cycles).idxOf source < (graph.schedule topLevel cycles).idxOf target := by
  induction hp with
  | refl => exact absurd rfl hne
  | @tail last target hp he ih =>
      by_cases hloop : last = target
      · subst hloop
        exact ih hne
      · have hlt := graph.schedule_idxOf_lt topLevel cycles last target he hloop
          fun hback => hloop (h.eq_of_paths he.path hback)
        by_cases hs : source = last
        · exact hs ▸ hlt
        · exact (ih hs).trans hlt

-- No two names are neighbours.
def Apart (graph : Graph) : Prop := ∀ source target, graph.Edge source target → source = target

theorem walk_of_visited (graph : Graph) (name : String) (pending : List String)
    (progress : Progress) (h : ∀ source ∈ pending, source ∉ progress.unvisited) :
    graph.walk [⟨name, pending⟩] progress = { progress with done := name :: progress.done } := by
  induction pending with
  | nil => rw [walk, walk]
  | cons next pending ih =>
      have hnext : ¬ progress.unvisited.contains next = true :=
        fun hc => h next List.mem_cons_self (Std.ExtTreeSet.contains_iff_mem.mp hc)
      rw [walk, dif_neg hnext, ih fun source hm => h source (List.mem_cons_of_mem _ hm)]

section Apart

variable {graph : Graph} (happart : graph.Apart)
include happart

theorem Apart.visit {progress : Progress} {name : String} (hn : name ∈ progress.unvisited) :
    graph.visit progress name = ⟨progress.unvisited.erase name, name :: progress.done⟩ := by
  rw [Graph.visit, if_pos (Std.ExtTreeSet.contains_iff_mem.mpr hn), visitOf, walk_of_visited]
  intro source hs
  obtain rfl := happart source name (Std.ExtTreeSet.mem_toList.mp hs)
  simp

theorem Apart.done_visits (names : List String) (progress : Progress) (hn : names.Nodup)
    (hm : ∀ name ∈ names, name ∈ progress.unvisited) :
    (names.foldl graph.visit progress).done = names.reverse ++ progress.done := by
  induction names generalizing progress with
  | nil => rfl
  | cons name names ih =>
      obtain ⟨hname, hn⟩ := List.nodup_cons.mp hn
      rw [List.foldl_cons, happart.visit (hm name List.mem_cons_self), ih _ hn]
      · simp
      · intro other ho
        have hne : compare name other ≠ .eq := fun he => hname (Std.compare_eq_iff_eq.mp he ▸ ho)
        exact Std.ExtTreeSet.mem_erase.mpr ⟨hne, hm other (List.mem_cons_of_mem _ ho)⟩

end Apart

theorem visits_of_visited (graph : Graph) (seeds : List String) (progress : Progress)
    (h : ∀ name, name ∉ progress.unvisited) : seeds.foldl graph.visit progress = progress := by
  induction seeds with
  | nil => rfl
  | cons seed seeds ih =>
      rw [List.foldl_cons, visit, if_neg (Std.ExtTreeSet.contains_iff_mem.not.mpr (h seed)), ih]

theorem Apart.mem_topLevel {graph : Graph} (happart : graph.Apart) {name : String}
    (hm : name ∈ graph.names) : name ∈ graph.topLevel :=
  (graph.mem_topLevel_iff name).mpr ⟨hm, fun source he => happart source name he⟩

-- Where nobody depends on anybody else the names are visited in ascending order.
theorem Apart.schedule {graph : Graph} (happart : graph.Apart) (topLevel cycles : NameSet)
    (htop : ∀ name ∈ graph.names, name ∈ topLevel) :
    graph.schedule topLevel cycles = graph.names := by
  have hseeds : topLevel.toList.filter graph.contains = graph.names := by
    apply List.Pairwise.eq_of_mem_iff ((NameSet.pairwise_toList topLevel).filter _) graph.pairwise_names
    intro name
    rw [List.mem_filter, Std.ExtTreeSet.mem_toList, ← mem_names]
    exact ⟨And.right, fun hm => ⟨htop name hm, hm⟩⟩
  have hdone := happart.done_visits graph.names ⟨graph.nameSet, []⟩ graph.nodup_names
    fun name hm => (graph.mem_nameSet name).mpr hm
  have hnone : ∀ name, name ∉ (graph.names.foldl graph.visit ⟨graph.nameSet, []⟩).unvisited := by
    intro name hm
    obtain ⟨hs, hout⟩ := graph.mem_unvisited_of_visits _ _ name hm
    exact hout ((graph.mem_nameSet name).mp hs)
  rw [Graph.schedule, List.filter_append, hseeds, List.append_assoc, List.foldl_append,
    visits_of_visited graph _ _ hnone, hdone, List.append_nil, List.reverse_reverse]

end Rollout.Graph
