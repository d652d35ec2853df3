import Rollout.Graph.Vertices

namespace Rollout.Vertices

theorem mem_payloads_ensure (vertices : Vertices) (name n : String) :
    n ∈ (vertices.ensure name).payloads ↔ n = name ∨ n ∈ vertices.payloads := by
  simp only [ensure, Std.ExtTreeMap.mem_iff_isSome_getElem?, Std.ExtTreeMap.getElem?_alter,
    Std.compare_eq_iff_eq]
  by_cases h : name = n
  · simp [h]
  · simp [h, Ne.symm h]

theorem mem_payloads_setPayload (vertices : Vertices) (name n : String) (payload : Feedstock) :
    n ∈ (vertices.setPayload name payload).payloads ↔ n = name ∨ n ∈ vertices.payloads := by
  simp [setPayload, Std.ExtTreeMap.mem_insert, mem_payloads_ensure, eq_comm (a := n)]

section Coherence

variable {vertices : Vertices}

theorem Coherent.empty : Vertices.empty.Coherent where
  mirror _ _ := by simp [dependencies, dependents, Vertices.empty, Adjacency.neighbours]
  upstream _ := by simp [Vertices.empty]
  downstream _ := by simp [Vertices.empty]

theorem Coherent.ensure (h : vertices.Coherent) (name : String) : (vertices.ensure name).Coherent where
  mirror a b := by
    simp only [dependencies, dependents, Vertices.ensure, Adjacency.neighbours_ensure]
    exact h.mirror a b
  upstream n := by
    rw [mem_payloads_ensure, ← h.upstream]
    exact vertices.upstream.mem_ensure name n
  downstream n := by
    rw [mem_payloads_ensure, ← h.downstream]
    exact vertices.downstream.mem_ensure name n

theorem Coherent.setPayload (h : vertices.Coherent) (name : String) (payload : Feedstock) :
    (vertices.setPayload name payload).Coherent where
  mirror := (h.ensure name).mirror
  upstream n := by
    rw [mem_payloads_setPayload, ← mem_payloads_ensure]
    exact (h.ensure name).upstream n
  downstream n := by
    rw [mem_payloads_setPayload, ← mem_payloads_ensure]
    exact (h.ensure name).downstream n

theorem mem_dependencies_connect (vertices : Vertices) (source target n x : String) :
    x ∈ (vertices.connect source target).dependencies n ↔
      x ∈ vertices.dependencies n ∨ (x = source ∧ n = target) := by
  simp only [dependencies, connect, ensure, Adjacency.mem_neighbours_link, Adjacency.neighbours_ensure,
    Adjacency.mem_ensure]
  grind

theorem mem_dependents_connect (vertices : Vertices) (source target n x : String) :
    x ∈ (vertices.connect source target).dependents n ↔
      x ∈ vertices.dependents n ∨ (x = target ∧ n = source) := by
  simp only [dependents, connect, ensure, Adjacency.mem_neighbours_link, Adjacency.neighbours_ensure,
    Adjacency.mem_ensure]
  grind

theorem Coherent.connect (h : vertices.Coherent) (source target : String) :
    (vertices.connect source target).Coherent where
  mirror a b := by
    rw [mem_dependents_connect, mem_dependencies_connect, h.mirror a b, and_comm (a := b = target)]
  upstream n := (Adjacency.mem_link _ _ _ _).trans (((h.ensure source).ensure target).upstream n)
  downstream n := (Adjacency.mem_link _ _ _ _).trans (((h.ensure source).ensure target).downstream n)

theorem mem_dependencies_disconnect (vertices : Vertices) (source target n x : String) :
    x ∈ (vertices.disconnect source target).dependencies n ↔
      x ∈ vertices.dependencies n ∧ ¬ (x = source ∧ n = target) := by
  simp only [dependencies, disconnect, Adjacency.mem_neighbours_unlink, and_comm (a := n = target)]

theorem Coherent.disconnect (h : vertices.Coherent) (source target : String) :
    (vertices.disconnect source target).Coherent where
  mirror a b := by
    rw [mem_dependencies_disconnect, ← h.mirror a b]
    exact Adjacency.mem_neighbours_unlink _ _ _ _ _
  upstream n := (Adjacency.mem_unlink _ _ _ _).trans (h.upstream n)
  downstream n := (Adjacency.mem_unlink _ _ _ _).trans (h.downstream n)

-- The name itself may be among its neighbours. The row it is in goes as a whole.
theorem mem_dependencies_remove (h : vertices.Coherent) (name n x : String) :
    x ∈ (vertices.remove name).dependencies n ↔ x ∈ vertices.dependencies n ∧ n ≠ name ∧ x ≠ name := by
  have hmirror : name ∈ vertices.upstream.neighbours n ↔ n ∈ vertices.downstream.neighbours name :=
    (h.mirror name n).symm
  simp only [dependencies, remove, Adjacency.mem_neighbours_unlinkAll, Adjacency.neighbours_erase,
    Std.ExtTreeSet.mem_toList]
  by_cases hn : name = n
  · simp [hn]
  · rw [if_neg hn]
    grind

theorem mem_dependents_remove (h : vertices.Coherent) (name n x : String) :
    x ∈ (vertices.remove name).dependents n ↔ x ∈ vertices.dependents n ∧ n ≠ name ∧ x ≠ name := by
  have hmirror : name ∈ vertices.downstream.neighbours n ↔ n ∈ vertices.upstream.neighbours name :=
    h.mirror n name
  simp only [dependents, remove, Adjacency.neighbours_erase]
  by_cases hn : name = n
  · simp [hn]
  · rw [if_neg hn, Adjacency.mem_neighbours_unlinkAll, Std.ExtTreeSet.mem_toList]
    grind

theorem Coherent.remove (h : vertices.Coherent) (name : String) : (vertices.remove name).Coherent where
  mirror a b := by
    rw [mem_dependents_remove h, mem_dependencies_remove h, h.mirror a b, and_comm (a := a ≠ name)]
  upstream n := by
    simp only [Vertices.remove, Adjacency.mem_unlinkAll, Std.ExtTreeMap.mem_erase, h.upstream]
  downstream n := by
    simp only [Vertices.remove, Std.ExtTreeMap.mem_erase, Adjacency.mem_unlinkAll, h.downstream]

end Coherence

end Rollout.Vertices
