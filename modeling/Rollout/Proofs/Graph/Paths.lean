import Mathlib.Data.List.Chain
import Mathlib.Logic.Relation
import Rollout.Proofs.Graph.Lookup

namespace Rollout.Graph

-- `target` depends directly on `source`.
def Edge (graph : Graph) (source target : String) : Prop := source ∈ graph.dependencies target

instance (graph : Graph) (source target : String) : Decidable (graph.Edge source target) := by
  unfold Edge
  infer_instance

-- A directed path along edges. It may be empty.
def Path (graph : Graph) : String → String → Prop := Relation.ReflTransGen graph.Edge

theorem Edge.target_mem {graph : Graph} {source target : String} (he : graph.Edge source target) :
    target ∈ graph.names :=
  (graph.mem_names_iff target).mpr
    ((graph.coherent.upstream target).mp (Adjacency.mem_of_mem_neighbours he))

-- An edge is known at both of its ends, so a dependency is in the graph as well.
theorem Edge.source_mem {graph : Graph} {source target : String} (he : graph.Edge source target) :
    source ∈ graph.names :=
  (graph.mem_names_iff source).mpr ((graph.coherent.downstream source).mp
    (Adjacency.mem_of_mem_neighbours ((graph.coherent.mirror source target).mpr he)))

theorem Edge.path {graph : Graph} {source target : String} (he : graph.Edge source target) :
    graph.Path source target := Relation.ReflTransGen.single he

-- The first dependency, in ascending order, of which nothing is known.
structure FirstUnknown (graph : Graph) (name dependency : String) : Prop where
  edge : graph.Edge dependency name
  unknown : graph.payload? dependency = none
  least : ∀ other, graph.Edge other name → graph.payload? other = none → dependency ≤ other

theorem FirstUnknown.unique {graph : Graph} {name first second : String}
    (hfirst : graph.FirstUnknown name first) (hsecond : graph.FirstUnknown name second) :
    first = second :=
  String.le_antisymm (hfirst.least second hsecond.edge hsecond.unknown)
    (hsecond.least first hfirst.edge hfirst.unknown)

-- Dependencies are listed in ascending order, so the first unknown one follows known ones.
theorem firstUnknown_iff_split (graph : Graph) (name dependency : String) :
    graph.FirstUnknown name dependency ↔
      ∃ before after, (graph.dependencies name).toList = before ++ dependency :: after ∧
        graph.payload? dependency = none ∧
        ∀ earlier ∈ before, ∃ feedstock, graph.payload? earlier = some feedstock := by
  have hmem : ∀ other, other ∈ (graph.dependencies name).toList ↔ graph.Edge other name :=
    fun other => Std.ExtTreeSet.mem_toList
  have hordered : (graph.dependencies name).toList.Pairwise (· < ·) := NameSet.pairwise_toList _
  constructor
  · intro hfirst
    obtain ⟨before, after, hsplit⟩ := List.append_of_mem ((hmem dependency).mpr hfirst.edge)
    refine ⟨before, after, hsplit, hfirst.unknown, ?_⟩
    intro earlier hm
    rw [hsplit] at hordered
    have hlt : earlier < dependency :=
      (List.pairwise_append.mp hordered).2.2 earlier hm dependency List.mem_cons_self
    have he : graph.Edge earlier name := (hmem earlier).mp (by simp [hsplit, hm])
    cases hp : graph.payload? earlier with
    | none => exact absurd hlt (String.not_lt.mpr (hfirst.least earlier he hp))
    | some feedstock => exact ⟨feedstock, rfl⟩
  · rintro ⟨before, after, hsplit, hunknown, hbefore⟩
    rw [hsplit] at hordered
    refine ⟨(hmem dependency).mp (by simp [hsplit]), hunknown, ?_⟩
    intro other he ho
    rw [← hmem, hsplit, List.mem_append, List.mem_cons] at he
    rcases he with hm | rfl | hm
    · obtain ⟨feedstock, hp⟩ := hbefore other hm
      cases hp.symm.trans ho
    · exact String.le_refl _
    · have hlater := (List.pairwise_cons.mp (List.pairwise_append.mp hordered).2.1).1
      exact String.not_lt.mp (String.lt_asymm (hlater other hm))

-- Along a chain of edges the first name has a path to every other.
theorem path_of_isChain (graph : Graph) (first : String) (rest : List String)
    (hc : (first :: rest).IsChain graph.Edge) (name : String) (hn : name ∈ rest) :
    graph.Path first name := by
  induction rest generalizing first with
  | nil => cases hn
  | cons next rest ih =>
      obtain ⟨he, hrest⟩ := List.isChain_cons_cons.mp hc
      rcases List.mem_cons.mp hn with rfl | hn
      · exact he.path
      · exact Relation.ReflTransGen.head he (ih next hrest hn)

-- Names that edges do not leave hold the end of every path that starts among them.
theorem Path.mem_of_closed {graph : Graph} {source target : String} (hp : graph.Path source target)
    (names : List String) (hs : source ∈ names)
    (hclosed : ∀ name ∈ names, ∀ next ∈ (graph.dependents name).toList, next ∈ names) :
    target ∈ names := by
  induction hp with
  | refl => exact hs
  | tail _ he ih => exact hclosed _ ih _ (Std.ExtTreeSet.mem_toList.mpr ((graph.coherent.mirror _ _).mpr he))

end Rollout.Graph
