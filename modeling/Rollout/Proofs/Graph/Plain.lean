import Mathlib.Data.Finset.Card
import Mathlib.Data.List.Dedup
import Rollout.Proofs.Graph.Prune

namespace Rollout

-- A directed graph as nothing but sets: its nodes, what is known of some of them, and edges
-- between them.
@[ext]
structure PlainGraph where
  nodes : Finset String
  payload : String → Option Feedstock
  edges : Finset (String × String)
  known : ∀ name, name ∉ nodes → payload name = none
  inside : ∀ edge ∈ edges, edge.1 ∈ nodes ∧ edge.2 ∈ nodes

namespace PlainGraph

def empty : PlainGraph where
  nodes := ∅
  payload _ := none
  edges := ∅
  known _ _ := rfl
  inside := by simp

def add (plain : PlainGraph) (name : String) (feedstock : Feedstock) : PlainGraph where
  nodes := insert name plain.nodes
  payload n := if n = name then some feedstock else plain.payload n
  edges := plain.edges
  known n hn := by
    rw [Finset.mem_insert, not_or] at hn
    rw [if_neg hn.1, plain.known n hn.2]
  inside edge he := (plain.inside edge he).imp Finset.mem_insert_of_mem Finset.mem_insert_of_mem

def addName (plain : PlainGraph) (name : String) : PlainGraph where
  nodes := insert name plain.nodes
  payload := plain.payload
  edges := plain.edges
  known n hn := plain.known n fun hm => hn (Finset.mem_insert_of_mem hm)
  inside edge he := (plain.inside edge he).imp Finset.mem_insert_of_mem Finset.mem_insert_of_mem

def connect (plain : PlainGraph) (source target : String) : PlainGraph where
  nodes := insert target (insert source plain.nodes)
  payload := plain.payload
  edges := insert (source, target) plain.edges
  known n hn := plain.known n fun hm => hn (by simp [hm])
  inside edge he := by
    rcases Finset.mem_insert.mp he with rfl | he
    · simp
    · have hinside := plain.inside edge he
      simp [hinside.1, hinside.2]

-- The part on the nodes that pass a test.
def restrict (plain : PlainGraph) (keep : String → Bool) : PlainGraph where
  nodes := plain.nodes.filter (keep · = true)
  payload n := if keep n then plain.payload n else none
  edges := plain.edges.filter fun edge => keep edge.1 = true ∧ keep edge.2 = true
  known n hn := by
    rw [Finset.mem_filter, not_and] at hn
    by_cases hm : n ∈ plain.nodes
    · rw [if_neg (hn hm)]
    · rw [plain.known n hm, ite_self]
  inside edge he := by
    obtain ⟨he, hs, ht⟩ := Finset.mem_filter.mp he
    have hinside := plain.inside edge he
    exact ⟨Finset.mem_filter.mpr ⟨hinside.1, hs⟩, Finset.mem_filter.mpr ⟨hinside.2, ht⟩⟩

-- The same nodes with the edges that pass a test.
def thin (plain : PlainGraph) (keep : String × String → Bool) : PlainGraph where
  nodes := plain.nodes
  payload := plain.payload
  edges := plain.edges.filter (keep · = true)
  known := plain.known
  inside edge he := plain.inside edge (Finset.mem_filter.mp he).1

end PlainGraph

-- What can be done to a graph.
inductive Change where
  | add (name : String) (feedstock : Feedstock)
  | addName (name : String)
  | connect (source target : String)
  | disconnect (source target : String)
  | remove (name : String)
  | removeLoops
  | restrict (names : NameSet)
  | withoutEdges

def Graph.apply (graph : Graph) : Change → Graph
  | .add name feedstock => graph.add name feedstock
  | .addName name => graph.addName name
  | .connect source target => graph.connect source target
  | .disconnect source target => graph.disconnect source target
  | .remove name => graph.remove name
  | .removeLoops => graph.removeLoops
  | .restrict names => graph.restrict names
  | .withoutEdges => graph.withoutEdges

-- What a change does to the sets: an edge brings its ends along, a removed node takes its edges
-- along, and nothing else moves.
def PlainGraph.apply (plain : PlainGraph) : Change → PlainGraph
  | .add name feedstock => plain.add name feedstock
  | .addName name => plain.addName name
  | .connect source target => plain.connect source target
  | .disconnect source target => plain.thin (· != (source, target))
  | .remove name => plain.restrict (· != name)
  | .removeLoops => plain.thin fun edge => edge.1 != edge.2
  | .restrict names => plain.restrict names.contains
  | .withoutEdges => plain.thin fun _ => false

namespace Graph

theorem nodup_edges (graph : Graph) : graph.edges.Nodup := by
  rw [edges_eq]
  refine List.nodup_flatMap.mpr ⟨fun source _ => ?_, ?_⟩
  · refine List.Nodup.map (fun first second he => (Prod.mk.inj he).2) ?_
    exact (NameSet.pairwise_toList _).imp fun hlt => String.ne_of_lt hlt
  · refine graph.nodup_names.imp fun hne edge hfirst hsecond => ?_
    obtain ⟨target, -, rfl⟩ := List.mem_map.mp hfirst
    obtain ⟨other, -, he⟩ := List.mem_map.mp hsecond
    exact hne (Prod.mk.inj he).1.symm

-- The sets behind a graph.
def plain (graph : Graph) : PlainGraph where
  nodes := graph.names.toFinset
  payload := graph.payload?
  edges := graph.edges.toFinset
  known name hn := payload?_eq_none_of_not_mem fun hm => hn (List.mem_toFinset.mpr hm)
  inside edge he := by
    rw [List.mem_toFinset, mem_edges_iff] at he
    exact ⟨List.mem_toFinset.mpr he.source_mem, List.mem_toFinset.mpr he.target_mem⟩

theorem mem_nodes_plain (graph : Graph) (name : String) :
    name ∈ graph.plain.nodes ↔ name ∈ graph.names := List.mem_toFinset

theorem mem_edges_plain (graph : Graph) (edge : String × String) :
    edge ∈ graph.plain.edges ↔ graph.Edge edge.1 edge.2 := by
  rw [plain, List.mem_toFinset, mem_edges_iff]

theorem plain_ext {graph : Graph} {plain : PlainGraph}
    (hnode : ∀ name, name ∈ graph.names ↔ name ∈ plain.nodes)
    (hpayload : ∀ name, graph.payload? name = plain.payload name)
    (hedge : ∀ edge : String × String, graph.Edge edge.1 edge.2 ↔ edge ∈ plain.edges) :
    graph.plain = plain := by
  apply PlainGraph.ext
  · ext name
    rw [mem_nodes_plain, hnode]
  · funext name
    exact hpayload name
  · ext edge
    rw [mem_edges_plain, hedge]

theorem plain_empty : empty.plain = PlainGraph.empty := rfl

section Apply

variable (graph : Graph)

-- One step: a change of a graph is that change of the sets behind it.
theorem plain_apply (change : Change) : (graph.apply change).plain = graph.plain.apply change := by
  cases change with
  | add name feedstock =>
      apply plain_ext
      · simp [Graph.apply, PlainGraph.apply, PlainGraph.add, mem_names_add, mem_nodes_plain]
      · intro n
        simp only [Graph.apply, PlainGraph.apply, PlainGraph.add, payload?_add, eq_comm (a := name)]
        rfl
      · simp [Graph.apply, PlainGraph.apply, PlainGraph.add, edge_add, mem_edges_plain]
  | addName name =>
      apply plain_ext
      · simp [Graph.apply, PlainGraph.apply, PlainGraph.addName, mem_names_addName, mem_nodes_plain]
      · exact graph.payload?_addName name
      · simp [Graph.apply, PlainGraph.apply, PlainGraph.addName, edge_addName, mem_edges_plain]
  | connect source target =>
      apply plain_ext
      · simp [Graph.apply, PlainGraph.apply, PlainGraph.connect, mem_names_connect, mem_nodes_plain]
      · exact graph.payload?_connect source target
      · simp [Graph.apply, PlainGraph.apply, PlainGraph.connect, edge_connect, mem_edges_plain,
          or_comm]
  | disconnect source target =>
      apply plain_ext
      · simp [Graph.apply, PlainGraph.apply, PlainGraph.thin, mem_names_disconnect, mem_nodes_plain]
      · exact graph.payload?_disconnect source target
      · simp [Graph.apply, PlainGraph.apply, PlainGraph.thin, edge_disconnect, mem_edges_plain]
  | remove name =>
      apply plain_ext
      · simp [Graph.apply, PlainGraph.apply, PlainGraph.restrict, mem_names_remove, mem_nodes_plain,
          and_comm]
      · intro n
        by_cases hn : name = n
        · simp [Graph.apply, PlainGraph.apply, PlainGraph.restrict, payload?_remove, hn]
        · simp [Graph.apply, PlainGraph.apply, PlainGraph.restrict, payload?_remove, hn, Ne.symm hn,
            plain]
      · simp [Graph.apply, PlainGraph.apply, PlainGraph.restrict, edge_remove, mem_edges_plain,
          and_comm]
  | removeLoops =>
      apply plain_ext
      · simp [Graph.apply, PlainGraph.apply, PlainGraph.thin, mem_names_removeLoops, mem_nodes_plain]
      · exact graph.payload?_removeLoops
      · simp [Graph.apply, PlainGraph.apply, PlainGraph.thin, edge_removeLoops, mem_edges_plain]
  | restrict names =>
      apply plain_ext
      · simp [Graph.apply, PlainGraph.apply, PlainGraph.restrict, mem_names_restrict, mem_nodes_plain]
      · exact graph.payload?_restrict names
      · simp [Graph.apply, PlainGraph.apply, PlainGraph.restrict, edge_restrict, mem_edges_plain,
          and_comm]
  | withoutEdges =>
      apply plain_ext
      · simp [Graph.apply, PlainGraph.apply, PlainGraph.thin, mem_names_withoutEdges, mem_nodes_plain]
      · exact graph.payload?_withoutEdges
      · simp [Graph.apply, PlainGraph.apply, PlainGraph.thin, not_edge_withoutEdges]

end Apply

-- What can be seen of a graph is what these sets say, and every listing holds each entry once.
structure Shows (graph : Graph) (plain : PlainGraph) : Prop where
  contains : ∀ name, graph.contains name = true ↔ name ∈ plain.nodes
  name : ∀ name, name ∈ graph.names ↔ name ∈ plain.nodes
  nodup_names : graph.names.Nodup
  size : graph.size = plain.nodes.card
  payload : ∀ name, graph.payload? name = plain.payload name
  edge : ∀ edge, edge ∈ graph.edges ↔ edge ∈ plain.edges
  nodup_edges : graph.edges.Nodup
  edgeCount : graph.edgeCount = plain.edges.card
  dependency : ∀ source target, source ∈ graph.dependencies target ↔ (source, target) ∈ plain.edges
  dependent : ∀ source target, target ∈ graph.dependents source ↔ (source, target) ∈ plain.edges
  -- both maps of neighbours have a row for every node, and for nothing else
  upstream : ∀ name, name ∈ graph.vertices.upstream ↔ name ∈ plain.nodes
  downstream : ∀ name, name ∈ graph.vertices.downstream ↔ name ∈ plain.nodes
  topLevel : ∀ name, name ∈ graph.topLevel ↔
    name ∈ plain.nodes ∧ ∀ source, (source, name) ∈ plain.edges → source = name

theorem shows_plain (graph : Graph) : graph.Shows graph.plain where
  contains name := by rw [mem_nodes_plain, mem_names]
  name name := (graph.mem_nodes_plain name).symm
  nodup_names := graph.nodup_names
  size := by
    rw [plain, List.toFinset_card_of_nodup graph.nodup_names]
    exact Std.ExtTreeMap.length_keys.symm
  payload _ := rfl
  edge edge := by rw [mem_edges_plain, mem_edges_iff]
  nodup_edges := graph.nodup_edges
  edgeCount := graph.edgeCount_eq_length.trans (List.toFinset_card_of_nodup graph.nodup_edges).symm
  dependency source target := (graph.mem_edges_plain (source, target)).symm
  dependent source target := by rw [mem_dependents_iff_edge, mem_edges_plain]
  upstream name := by rw [graph.coherent.upstream, mem_nodes_plain, mem_names_iff]
  downstream name := by rw [graph.coherent.downstream, mem_nodes_plain, mem_names_iff]
  topLevel name := by simp [mem_topLevel_iff, mem_nodes_plain, mem_edges_plain]

theorem plain_foldl_apply (changes : List Change) (graph : Graph) :
    (changes.foldl Graph.apply graph).plain = changes.foldl PlainGraph.apply graph.plain := by
  induction changes generalizing graph with
  | nil => rfl
  | cons change changes ih => rw [List.foldl_cons, List.foldl_cons, ih, plain_apply]

-- Whatever is done to a graph, in whatever order, it shows what is left of the sets after the same
-- changes. Its edges are known alike at both ends, and both ends are names of the graph.
theorem changes_act_on_sets (changes : List Change) :
    let graph := changes.foldl Graph.apply Graph.empty
    let plain := changes.foldl PlainGraph.apply PlainGraph.empty
    graph.Shows plain ∧
    (∀ source target, target ∈ graph.dependents source ↔ source ∈ graph.dependencies target) ∧
    ∀ source target, source ∈ graph.dependencies target →
      graph.contains source = true ∧ graph.contains target = true := by
  intro graph plain
  have hplain : graph.plain = plain := by
    rw [plain_foldl_apply changes Graph.empty, plain_empty]
  have hshows : graph.Shows plain := hplain ▸ graph.shows_plain
  refine ⟨hshows, graph.coherent.mirror, fun source target he => ?_⟩
  have hinside := plain.inside (source, target) ((hshows.dependency source target).mp he)
  exact ⟨(hshows.contains source).mpr hinside.1, (hshows.contains target).mpr hinside.2⟩

-- A loop counts as an edge at both ends, and goes with its node. A node that comes again starts anew.
example :
    let graph := [Change.connect "a" "a", .connect "a" "b", .remove "a", .addName "a"].foldl
      Graph.apply Graph.empty
    graph.names = ["a", "b"] ∧ graph.edgeCount = 0 := by
  decide

end Graph

end Rollout
