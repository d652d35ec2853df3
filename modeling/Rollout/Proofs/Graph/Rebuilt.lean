import Mathlib.Data.List.Sort
import Rollout.Proofs.Graph.Edges

namespace Rollout

theorem NameSet.isEmpty_or_isSingle_iff (names : NameSet) (name : String) :
    (names.isEmpty || names.size == 1 && names.contains name) = true ↔ ∀ n ∈ names, n = name := by
  have hnodup : names.toList.Nodup := (NameSet.pairwise_toList names).imp fun hlt => String.ne_of_lt hlt
  rw [← Std.ExtTreeSet.isEmpty_toList, ← Std.ExtTreeSet.length_toList]
  simp only [← Std.ExtTreeSet.mem_toList, ← Std.ExtTreeSet.contains_toList]
  match names.toList, hnodup with
  | [], _ => simp
  | [only], _ => simp [eq_comm]
  | first :: second :: rest, hnodup =>
      have hne : first ≠ second := fun he => by simp [he] at hnodup
      refine iff_of_false (by simp) fun hall => hne ?_
      rw [hall first (by simp), hall second (by simp)]

namespace Graph

section Listings

variable (graph : Graph)

-- The rows of a graph are those of its names, whatever their direction.
theorem toList_of_keys {graph : Graph} {rows : Adjacency}
    (hkey : ∀ name, name ∈ rows ↔ name ∈ graph.vertices.payloads) :
    rows.toList = graph.names.map fun name => (name, rows.neighbours name) := by
  have hkeys : rows.keys = graph.names := by
    refine (NameMap.pairwise_keys rows).eq_of_mem_iff graph.pairwise_names fun name => ?_
    rw [Std.ExtTreeMap.mem_keys, hkey, mem_names_iff]
  rw [Adjacency.toList_eq, hkeys]

theorem edges_eq : graph.edges = graph.names.flatMap fun source =>
    (graph.dependents source).toList.map fun target => (source, target) := by
  rw [edges, toList_of_keys graph.coherent.downstream, List.flatMap_map]
  rfl

theorem mem_edges_iff (edge : String × String) : edge ∈ graph.edges ↔ graph.Edge edge.1 edge.2 := by
  simp only [edges_eq, List.mem_flatMap, List.mem_map, Std.ExtTreeSet.mem_toList,
    mem_dependents_iff_edge]
  constructor
  · rintro ⟨source, -, target, he, rfl⟩
    exact he
  · exact fun he => ⟨edge.1, he.source_mem, edge.2, he, rfl⟩

theorem edgeCount_eq_length : graph.edgeCount = graph.edges.length := by
  simp [edgeCount, edges, List.length_flatMap, List.sum_eq_foldl, List.foldl_map]

theorem looped_eq : graph.looped = graph.names.filter fun name => (graph.dependents name).contains name := by
  rw [looped, toList_of_keys graph.coherent.downstream, List.filter_map, List.map_map]
  exact List.map_id _

theorem mem_looped_iff (name : String) : name ∈ graph.looped ↔ graph.Edge name name := by
  rw [looped_eq, List.mem_filter, Std.ExtTreeSet.contains_iff_mem, mem_dependents_iff_edge]
  exact and_iff_right_of_imp Edge.source_mem

theorem topLevel_eq : graph.topLevel = NameSet.ofList (graph.names.filter fun name =>
    (graph.dependencies name).isEmpty ||
      (graph.dependencies name).size == 1 && (graph.dependencies name).contains name) := by
  rw [topLevel, toList_of_keys graph.coherent.upstream, List.filter_map, List.map_map]
  exact congrArg NameSet.ofList (List.map_id _)

theorem mem_topLevel_iff (name : String) :
    name ∈ graph.topLevel ↔ name ∈ graph.names ∧ ∀ source, graph.Edge source name → source = name := by
  rw [topLevel_eq, NameSet.mem_ofList, List.mem_filter, NameSet.isEmpty_or_isSingle_iff]
  rfl

end Listings

section Build

variable (nodes : List (String × Option Feedstock)) (edges : List (String × String))

theorem not_mem_names_empty {n : String} : n ∉ empty.names := nofun

theorem mem_names_addNode (graph : Graph) (node : String × Option Feedstock) (n : String) :
    n ∈ (graph.addNode node).names ↔ n ∈ graph.names ∨ n = node.1 := by
  obtain ⟨name, payload⟩ := node
  cases payload with
  | some feedstock => exact (graph.mem_names_add name n feedstock).trans or_comm
  | none => exact (graph.mem_names_addName name n).trans or_comm

theorem payload?_addNode (graph : Graph) (node : String × Option Feedstock) (n : String) :
    (graph.addNode node).payload? n =
      if node.1 = n then node.2.or (graph.payload? n) else graph.payload? n := by
  obtain ⟨name, payload⟩ := node
  cases payload with
  | some feedstock => exact graph.payload?_add name n feedstock
  | none => simp [addNode, payload?_addName]

theorem edge_addNode (graph : Graph) (node : String × Option Feedstock) (a b : String) :
    (graph.addNode node).Edge a b ↔ graph.Edge a b := by
  obtain ⟨name, payload⟩ := node
  cases payload with
  | some feedstock => exact graph.edge_add name a b feedstock
  | none => exact graph.edge_addName name a b

theorem payload?_foldl_addNode {n : String} {payload : Option Feedstock}
    (hnodes : ∀ node ∈ nodes, node.1 = n → node.2 = payload) (graph : Graph) :
    (nodes.foldl addNode graph).payload? n =
      if n ∈ nodes.map Prod.fst then payload.or (graph.payload? n) else graph.payload? n := by
  induction nodes generalizing graph with
  | nil => rfl
  | cons node nodes ih =>
      obtain ⟨hnode, hnodes⟩ := List.forall_mem_cons.mp hnodes
      rw [List.foldl_cons, ih hnodes, payload?_addNode, List.map_cons]
      by_cases hn : node.1 = n
      · simp [hn, hnode hn, ← Option.or_assoc]
      · simp only [hn, List.mem_cons, Ne.symm hn, if_false, false_or]

theorem mem_names_build (n : String) :
    n ∈ (build nodes edges).names ↔
      n ∈ nodes.map Prod.fst ∨ ∃ edge ∈ edges, n = edge.1 ∨ n = edge.2 := by
  rw [build, foldl_adds_iff (fun graph n => n ∈ names graph) _ fun edge n => n = edge.1 ∨ n = edge.2,
    foldl_adds_iff (fun graph n => n ∈ names graph) _ fun node n => n = node.1]
  · simp [not_mem_names_empty]
  · exact mem_names_addNode
  · intro graph edge n
    rw [mem_names_connect]
    tauto

-- A name may be listed several times, if always with the same payload.
theorem payload?_build {n : String} (payload : Option Feedstock)
    (hnodes : ∀ node ∈ nodes, node.1 = n → node.2 = payload) :
    (build nodes edges).payload? n = if n ∈ nodes.map Prod.fst then payload else none := by
  have hedges : (build nodes edges).payload? n = (nodes.foldl addNode empty).payload? n :=
    payload?_foldl (fun (graph : Graph) (edge : String × String) => graph.connect edge.1 edge.2) n
      (fun graph edge => graph.payload?_connect edge.1 edge.2 n) _ _
  rw [hedges, payload?_foldl_addNode _ hnodes, payload?_eq_none_of_not_mem not_mem_names_empty,
    Option.or_none]

theorem edge_build (a b : String) : (build nodes edges).Edge a b ↔ (a, b) ∈ edges := by
  rw [build, edge_foldl_iff _ _ fun graph edge => graph.edge_connect edge.1 edge.2,
    edge_foldl_iff _ (fun _ _ _ => False) fun graph node a b => by rw [edge_addNode, or_false]]
  have hempty : ¬ empty.Edge a b := nofun
  simp [hempty]

end Build

section Parts

variable (graph : Graph)

theorem mem_names_withoutEdges (n : String) : n ∈ graph.withoutEdges.names ↔ n ∈ graph.names := by
  refine (mem_names_build _ _ n).trans ?_
  rw [Std.ExtTreeMap.map_fst_toList_eq_keys]
  simp [names]

theorem payload?_withoutEdges (n : String) : graph.withoutEdges.payload? n = graph.payload? n := by
  refine (payload?_build _ [] (graph.payload? n) ?_).trans ?_
  · rintro ⟨name, payload⟩ hnode rfl
    rw [payload?, Std.ExtTreeMap.mem_toList_iff_getElem?_eq_some.mp hnode, Option.join_some]
  · rw [Std.ExtTreeMap.map_fst_toList_eq_keys]
    exact ite_eq_left_iff.mpr fun hn => (payload?_eq_none_of_not_mem hn).symm

theorem not_edge_withoutEdges (a b : String) : ¬ graph.withoutEdges.Edge a b := by
  intro he
  exact List.not_mem_nil ((edge_build _ _ a b).mp he)

variable (kept : NameSet)

theorem edge_restrict (a b : String) :
    (graph.restrict kept).Edge a b ↔ graph.Edge a b ∧ b ∈ kept ∧ a ∈ kept := by
  refine (edge_build _ _ a b).trans ?_
  rw [List.mem_filter, mem_edges_iff]
  refine and_congr_right fun he => ?_
  have hends := And.intro he.source_mem he.target_mem
  rw [mem_names, mem_names] at hends
  simp [hends, and_comm]

theorem mem_keptNames_iff (n : String) :
    n ∈ ((kept.filter graph.contains).toList.map fun name => (name, graph.payload? name)).map Prod.fst ↔
      n ∈ graph.names ∧ n ∈ kept := by
  rw [List.map_map, mem_names]
  simp [and_comm]

-- The ends of the edges that stay are among the names that stay.
theorem mem_names_restrict (n : String) :
    n ∈ (graph.restrict kept).names ↔ n ∈ graph.names ∧ n ∈ kept := by
  refine ⟨fun hn => ?_, fun hn => ?_⟩
  · rcases (mem_names_build _ _ n).mp hn with hn | ⟨⟨source, target⟩, he, hends⟩
    · exact (graph.mem_keptNames_iff kept n).mp hn
    · obtain ⟨hedge, ht, hs⟩ := (graph.edge_restrict kept source target).mp ((edge_build _ _ _ _).mpr he)
      rcases hends with rfl | rfl
      · exact ⟨hedge.source_mem, hs⟩
      · exact ⟨hedge.target_mem, ht⟩
  · exact (mem_names_build _ _ n).mpr (.inl ((graph.mem_keptNames_iff kept n).mpr hn))

theorem payload?_restrict (n : String) :
    (graph.restrict kept).payload? n = if kept.contains n then graph.payload? n else none := by
  refine (payload?_build _ _ (graph.payload? n) ?_).trans ?_
  · intro node hnode hn
    obtain ⟨name, -, rfl⟩ := List.mem_map.mp hnode
    exact congrArg graph.payload? hn
  · by_cases hn : n ∈ graph.names
    · simp only [mem_keptNames_iff, hn, true_and, Std.ExtTreeSet.contains_iff_mem]
    · rw [payload?_eq_none_of_not_mem hn, ite_self, ite_self]

end Parts

end Graph

end Rollout
