import Rollout.Proofs.Graph.Rebuilt

namespace Rollout.Graph

-- Plucking a name is removing it and then connecting some of its neighbours.
theorem pluck_induction {motive : Graph → Prop} (graph : Graph) (name : String)
    (habsent : name ∉ graph.names → motive graph) (hremove : motive (graph.remove name))
    (hconnect : ∀ rest source target, graph.Edge source name → source ≠ name →
      graph.Edge name target → target ≠ name → motive rest → motive (rest.connect source target)) :
    motive (graph.pluck name) := by
  unfold pluck
  split
  · refine List.foldlRecOn _ _ hremove fun rest hrest source hsource => ?_
    refine List.foldlRecOn _ _ hrest fun rest hrest target htarget => ?_
    simp only [List.mem_filter, Std.ExtTreeSet.mem_toList, mem_dependencies_iff_edge,
      mem_dependents_iff_edge, bne_iff_ne] at hsource htarget
    exact hconnect rest source target hsource.1 hsource.2 htarget.1 htarget.2 hrest
  · rename_i hname
    exact habsent (by rwa [mem_names])

-- The neighbours are names of the graph, so connecting them adds none.
theorem mem_names_pluck (graph : Graph) (name n : String) :
    n ∈ (graph.pluck name).names ↔ n ≠ name ∧ n ∈ graph.names := by
  revert n
  apply pluck_induction (motive := fun rest => ∀ n, n ∈ rest.names ↔ n ≠ name ∧ n ∈ graph.names)
  · intro habsent n
    refine ⟨fun hn => ⟨?_, hn⟩, And.right⟩
    rintro rfl
    exact habsent hn
  · exact graph.mem_names_remove name
  · intro rest source target hsource hs htarget ht hrest n
    rw [mem_names_connect, hrest]
    constructor
    · rintro (rfl | rfl | hn)
      · exact ⟨ht, htarget.target_mem⟩
      · exact ⟨hs, hsource.source_mem⟩
      · exact hn
    · exact fun hn => .inr (.inr hn)

theorem payload?_pluck (graph : Graph) {name n : String} (hn : name ≠ n) :
    (graph.pluck name).payload? n = graph.payload? n := by
  apply pluck_induction (motive := fun rest => rest.payload? n = graph.payload? n)
  · exact fun _ => rfl
  · rw [payload?_remove, if_neg hn]
  · intro rest source target _ _ _ _ hrest
    rw [payload?_connect, hrest]

theorem mem_names_pluckAll (names : List String) (graph : Graph) (n : String) :
    n ∈ (graph.pluckAll names).names ↔ n ∈ graph.names ∧ n ∉ names := by
  induction names generalizing graph with
  | nil => simp [pluckAll]
  | cons name names ih =>
      change n ∈ ((graph.pluck name).pluckAll names).names ↔ _
      rw [ih, mem_names_pluck, List.mem_cons, not_or]
      exact ⟨fun ⟨⟨hne, hm⟩, hout⟩ => ⟨hm, hne, hout⟩, fun ⟨hm, hne, hout⟩ => ⟨⟨hne, hm⟩, hout⟩⟩

theorem payload?_pluckAll (names : List String) (graph : Graph) {n : String} (hn : n ∉ names) :
    (graph.pluckAll names).payload? n = graph.payload? n := by
  induction names generalizing graph with
  | nil => rfl
  | cons name names ih =>
      obtain ⟨hne, hout⟩ := not_or.mp (fun h => hn (List.mem_cons.mpr h))
      exact (ih (graph.pluck name) hout).trans (graph.payload?_pluck (Ne.symm hne))

theorem mem_names_removeLoops (graph : Graph) (n : String) :
    n ∈ graph.removeLoops.names ↔ n ∈ graph.names := by
  revert n
  refine List.foldlRecOn _ _ (motive := fun rest : Graph => ∀ n, n ∈ rest.names ↔ n ∈ graph.names)
    (fun _ => Iff.rfl) fun rest hrest name _ n => ?_
  rw [mem_names_disconnect, hrest]

theorem payload?_removeLoops (graph : Graph) (n : String) :
    graph.removeLoops.payload? n = graph.payload? n := by
  refine List.foldlRecOn _ _ (motive := fun rest : Graph => rest.payload? n = graph.payload? n) rfl
    fun rest hrest name _ => ?_
  rw [payload?_disconnect, hrest]

theorem edge_disconnectAll (names : List String) (graph : Graph) (a b : String) :
    (names.foldl (fun rest name => rest.disconnect name name) graph).Edge a b ↔
      graph.Edge a b ∧ ¬ (a = b ∧ a ∈ names) := by
  induction names generalizing graph with
  | nil => simp
  | cons name names ih =>
      rw [List.foldl_cons, ih, edge_disconnect, List.mem_cons, and_assoc]
      refine and_congr_right fun _ => ?_
      rw [← not_or]
      apply not_congr
      constructor
      · rintro (⟨rfl, rfl⟩ | ⟨rfl, hm⟩)
        · exact ⟨rfl, .inl rfl⟩
        · exact ⟨rfl, .inr hm⟩
      · rintro ⟨rfl, rfl | hm⟩
        · exact .inl ⟨rfl, rfl⟩
        · exact .inr ⟨rfl, hm⟩

theorem edge_removeLoops (graph : Graph) (a b : String) :
    graph.removeLoops.Edge a b ↔ graph.Edge a b ∧ a ≠ b := by
  rw [removeLoops, edge_disconnectAll]
  refine and_congr_right fun he => not_congr ⟨And.left, ?_⟩
  rintro rfl
  exact ⟨rfl, (graph.mem_looped_iff a).mpr he⟩

end Rollout.Graph
