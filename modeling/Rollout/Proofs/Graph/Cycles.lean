import Mathlib.Data.List.Perm.Subperm
import Rollout.Proofs.Graph.Revision

namespace Rollout.Graph

-- A directed cycle: along edges from `first` through `rest` back to `first`, meeting no
-- name twice. A loop is one with nothing in `rest`.
structure Cycle (graph : Graph) (first : String) (rest : List String) : Prop where
  nodup : (first :: rest).Nodup
  chain : (first :: (rest ++ [first])).IsChain graph.Edge

theorem cycle_revise (graph : Graph) (name : String) (change : Feedstock → Feedstock)
    (first : String) (rest : List String) :
    (graph.revise name change).Cycle first rest ↔ graph.Cycle first rest := by
  constructor <;> intro hc
  · exact ⟨hc.nodup, graph.edge_revise name change ▸ hc.chain⟩
  · exact ⟨hc.nodup, (graph.edge_revise name change).symm ▸ hc.chain⟩

-- A chain that returns to one of its own names holds a cycle.
theorem cycle_of_return (graph : Graph) (first source : String) (rest before after : List String)
    (hsplit : first :: rest = before ++ source :: after) (hn : (first :: rest).Nodup)
    (hc : (first :: rest).IsChain graph.Edge) (he : graph.Edge source first) :
    graph.Cycle source before := by
  rw [hsplit] at hn hc
  refine ⟨?_, List.isChain_cons.mpr ⟨?_, ?_⟩⟩
  · have hperm : (before ++ source :: after).Perm (source :: (before ++ after)) := List.perm_middle
    exact (hperm.nodup hn).sublist ((List.sublist_append_left before after).cons_cons source)
  · intro next hnext
    have hfirst : (before ++ [source]).head? = some first := by
      have hhead := congrArg List.head? hsplit
      cases before with
      | nil => exact hhead.symm
      | cons name before => exact hhead.symm
    rw [hfirst] at hnext
    obtain rfl := Option.some.inj hnext
    exact he
  · apply hc.infix
    exact ⟨[], after, by simp⟩

theorem exists_cycle_of_chain (graph : Graph) (names : List String)
    (hfed : ∀ name ∈ names, ∃ source ∈ names, graph.Edge source name) (bound : Nat)
    (first : String) (rest : List String) (hn : (first :: rest).Nodup)
    (hc : (first :: rest).IsChain graph.Edge) (hs : ∀ name ∈ first :: rest, name ∈ names)
    (hb : names.length < (first :: rest).length + bound) :
    ∃ start others, graph.Cycle start others ∧ ∀ name ∈ start :: others, name ∈ names := by
  -- Going from one dependency to the next runs out of names, so it returns to a name it
  -- has met. The bound counts the names not met yet.
  induction bound generalizing first rest with
  | zero =>
      have hle := (List.subperm_of_subset hn hs).length_le
      omega
  | succ bound ih =>
      obtain ⟨source, hm, he⟩ := hfed first (hs first List.mem_cons_self)
      by_cases hmet : source ∈ first :: rest
      · obtain ⟨before, after, hsplit⟩ := List.append_of_mem hmet
        refine ⟨source, before, graph.cycle_of_return first source rest before after hsplit hn hc he, ?_⟩
        intro name hname
        rcases List.mem_cons.mp hname with rfl | hbefore
        · exact hm
        · exact hs name (hsplit ▸ List.mem_append_left _ hbefore)
      · apply ih source (first :: rest) (List.nodup_cons.mpr ⟨hmet, hn⟩)
          (List.isChain_cons_cons.mpr ⟨he, hc⟩)
        · intro name hname
          rcases List.mem_cons.mp hname with rfl | hname
          · exact hm
          · exact hs name hname
        · simp only [List.length_cons] at hb ⊢
          omega

theorem exists_cycle (graph : Graph) (names : List String) (hne : names ≠ [])
    (hfed : ∀ name ∈ names, ∃ source ∈ names, graph.Edge source name) :
    ∃ start others, graph.Cycle start others ∧ ∀ name ∈ start :: others, name ∈ names := by
  obtain ⟨first, hm⟩ := List.exists_mem_of_ne_nil names hne
  apply graph.exists_cycle_of_chain names hfed names.length first []
  · exact List.pairwise_singleton _ first
  · exact List.isChain_singleton first
  · intro name hname
    rw [List.mem_singleton.mp hname]
    exact hm
  · rw [List.length_singleton]
    omega

end Rollout.Graph
