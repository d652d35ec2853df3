import Mathlib.Data.List.Forall2
import Mathlib.Data.List.Sort
import Rollout.PlatformGraph
import Rollout.Proofs.Graph.Rebuilt
import Rollout.Proofs.Graph.Revision

namespace Rollout.Graph

-- Graphs that differ in nothing but their payloads, and those are related.
structure Alike (R : Feedstock → Feedstock → Prop) (before after : Graph) : Prop where
  name : ∀ name, name ∈ before.names ↔ name ∈ after.names
  edge : ∀ source target, before.Edge source target ↔ after.Edge source target
  payload : ∀ name, Option.Rel R (before.payload? name) (after.payload? name)
  outputs : before.outputs = after.outputs

namespace Alike

variable {R : Feedstock → Feedstock → Prop} {before after : Graph}

theorem names_eq (h : Alike R before after) : before.names = after.names :=
  before.pairwise_names.eq_of_mem_iff after.pairwise_names h.name

theorem contains_eq (h : Alike R before after) (name : String) :
    before.contains name = after.contains name := by
  rw [Bool.eq_iff_iff, ← mem_names, ← mem_names, h.name]

theorem dependencies_eq (h : Alike R before after) : before.dependencies = after.dependencies := by
  funext target
  exact Std.ExtTreeSet.ext_mem fun source => h.edge source target

theorem dependents_eq (h : Alike R before after) : before.dependents = after.dependents := by
  funext source
  apply Std.ExtTreeSet.ext_mem
  intro target
  rw [mem_dependents_iff_edge, mem_dependents_iff_edge, h.edge]

theorem payload?_cases (h : Alike R before after) (name : String) :
    before.payload? name = none ∧ after.payload? name = none ∨
      ∃ feedstock other, before.payload? name = some feedstock ∧ after.payload? name = some other ∧
        R feedstock other := by
  have hrel := h.payload name
  revert hrel
  generalize before.payload? name = found
  generalize after.payload? name = known
  intro hrel
  cases hrel with
  | none => exact .inl ⟨rfl, rfl⟩
  | some hr => exact .inr ⟨_, _, rfl, rfl, hr⟩

theorem payload?_eq_none_iff (h : Alike R before after) (name : String) :
    before.payload? name = none ↔ after.payload? name = none := by
  rcases h.payload?_cases name with ⟨hb, ha⟩ | ⟨feedstock, other, hb, ha, -⟩ <;> simp [hb, ha]

theorem exists_of_payload? (h : Alike R before after) {name : String} {feedstock : Feedstock}
    (hp : before.payload? name = some feedstock) :
    ∃ other, after.payload? name = some other ∧ R feedstock other := by
  rcases h.payload?_cases name with ⟨hb, -⟩ | ⟨found, other, hb, ha, hr⟩
  · cases hb.symm.trans hp
  · obtain rfl : found = feedstock := Option.some.inj (hb.symm.trans hp)
    exact ⟨other, ha, hr⟩

theorem firstUnknown_iff (h : Alike R before after) (name dependency : String) :
    before.FirstUnknown name dependency ↔ after.FirstUnknown name dependency := by
  constructor
  · rintro ⟨hedge, hunknown, hleast⟩
    refine ⟨(h.edge _ _).mp hedge, (h.payload?_eq_none_iff _).mp hunknown, fun other he ho => ?_⟩
    exact hleast other ((h.edge _ _).mpr he) ((h.payload?_eq_none_iff _).mpr ho)
  · rintro ⟨hedge, hunknown, hleast⟩
    refine ⟨(h.edge _ _).mpr hedge, (h.payload?_eq_none_iff _).mpr hunknown, fun other he ho => ?_⟩
    exact hleast other ((h.edge _ _).mp he) ((h.payload?_eq_none_iff _).mp ho)

theorem foldl {α : Type} {change change' : Graph → α → Graph}
    (hchange : ∀ {before after : Graph}, Alike R before after → ∀ item,
      Alike R (change before item) (change' after item))
    (items : List α) (h : Alike R before after) :
    Alike R (items.foldl change before) (items.foldl change' after) := by
  induction items generalizing before after with
  | nil => exact h
  | cons item items ih => exact ih (hchange h item)

theorem connect (h : Alike R before after) (source target : String) :
    Alike R (before.connect source target) (after.connect source target) where
  name n := by rw [mem_names_connect, mem_names_connect, h.name]
  edge a b := by rw [edge_connect, edge_connect, h.edge]
  payload n := by
    rw [payload?_connect, payload?_connect]
    exact h.payload n
  outputs := h.outputs

theorem disconnect (h : Alike R before after) (source target : String) :
    Alike R (before.disconnect source target) (after.disconnect source target) where
  name n := by rw [mem_names_disconnect, mem_names_disconnect, h.name]
  edge a b := by rw [edge_disconnect, edge_disconnect, h.edge]
  payload n := by
    rw [payload?_disconnect, payload?_disconnect]
    exact h.payload n
  outputs := h.outputs

theorem remove (h : Alike R before after) (name : String) :
    Alike R (before.remove name) (after.remove name) where
  name n := by rw [mem_names_remove, mem_names_remove, h.name]
  edge a b := by rw [edge_remove, edge_remove, h.edge]
  payload n := by
    rw [payload?_remove, payload?_remove]
    split
    · exact .none
    · exact h.payload n
  outputs := h.outputs

theorem withoutEdges (h : Alike R before after) : Alike R before.withoutEdges after.withoutEdges where
  name n := by rw [mem_names_withoutEdges, mem_names_withoutEdges, h.name]
  edge a b := iff_of_false (not_edge_withoutEdges before a b) (not_edge_withoutEdges after a b)
  payload n := by
    rw [payload?_withoutEdges, payload?_withoutEdges]
    exact h.payload n
  outputs := h.outputs

theorem removeLoops (h : Alike R before after) : Alike R before.removeLoops after.removeLoops := by
  have hlooped : before.looped = after.looped := by
    rw [looped_eq, looped_eq, h.names_eq, h.dependents_eq]
  rw [Graph.removeLoops, Graph.removeLoops, hlooped]
  exact h.foldl (fun hrest name => hrest.disconnect name name) _

theorem pluck (h : Alike R before after) (name : String) :
    Alike R (before.pluck name) (after.pluck name) := by
  unfold Graph.pluck
  rw [h.contains_eq, h.dependencies_eq, h.dependents_eq]
  split
  · apply (h.remove name).foldl
    intro before after hrest source
    exact hrest.foldl (fun hrest target => hrest.connect source target) _
  · exact h

theorem pluckAll (h : Alike R before after) (names : List String) :
    Alike R (before.pluckAll names) (after.pluckAll names) :=
  h.foldl (fun hrest name => hrest.pluck name) names

theorem reachable_eq (h : Alike R before after) (next : String → NameSet) (name : String) :
    before.reachable next name = after.reachable next name := by
  simp only [reachable, nameSet, h.names_eq]

theorem dropWithDescendants (h : Alike R before after) (excluded : NameSet) :
    Alike R (before.dropWithDescendants excluded) (after.dropWithDescendants excluded) := by
  have hdescendants : before.descendants = after.descendants := by
    funext name
    rw [descendants, descendants, h.dependents_eq, h.reachable_eq]
  unfold Graph.dropWithDescendants
  rw [hdescendants]
  exact (h.pluckAll _).removeLoops

theorem keepWithAncestors (h : Alike R before after) (targets : NameSet) :
    Alike R (before.keepWithAncestors targets) (after.keepWithAncestors targets) := by
  have hancestors : before.ancestors = after.ancestors := by
    funext name
    rw [ancestors, ancestors, h.dependencies_eq, h.reachable_eq]
  unfold Graph.keepWithAncestors
  rw [hancestors, h.names_eq]
  exact (h.pluckAll _).removeLoops

end Alike

theorem alike_revise {R : Feedstock → Feedstock → Prop} (hrefl : ∀ feedstock, R feedstock feedstock)
    (graph : Graph) (name : String) {change : Feedstock → Feedstock}
    (hchange : ∀ feedstock, R feedstock (change feedstock)) :
    Alike R graph (graph.revise name change) where
  name n := (graph.mem_names_revise name n change).symm
  edge a b := by rw [edge_revise]
  payload n := by
    rw [payload?_revise]
    cases graph.payload? n with
    | none => split <;> exact .none
    | some feedstock =>
        split
        · exact .some (hchange feedstock)
        · exact .some (hrefl feedstock)
  outputs := by
    unfold revise
    cases graph.payload? name <;> rfl

end Rollout.Graph

namespace Rollout

-- Payloads of one recipe: a graph for other platforms is derived alike from both.
structure Feedstock.SameRecipe (before after : Feedstock) : Prop where
  requirements : before.requirements = after.requirements
  extra : before.extra = after.extra
  rendered : before.rendered = after.rendered

namespace Feedstock.SameRecipe

variable {before after : Feedstock} (h : before.SameRecipe after)
include h

theorem edgeRequirements_eq (profile : Profile) (platform : String) :
    profile.edgeRequirements before platform = profile.edgeRequirements after platform := by
  simp only [Profile.edgeRequirements, platformRequirements?, h.requirements, h.extra]

theorem allNoarch_eq : before.allNoarch = after.allNoarch := by
  simp only [allNoarch, h.rendered]

end Feedstock.SameRecipe

namespace Graph.Alike

variable {R : Feedstock → Feedstock → Prop} {before after : Graph}
  (hR : ∀ before after, R before after → before.SameRecipe after)
include hR

theorem derive (h : Alike R before after) (profile : Profile) :
    Alike R (before.derive profile) (after.derive profile) := by
  unfold Graph.derive
  rw [h.names_eq, h.outputs]
  apply h.withoutEdges.foldl
  intro derived other hderived name
  rcases h.payload?_cases name with ⟨hb, ha⟩ | ⟨feedstock, known, hb, ha, hr⟩
  · rw [hb, ha]
    exact hderived
  · simp only [hb, ha, (hR _ _ hr).edgeRequirements_eq]
    apply hderived.foldl
    intro derived other hderived platform
    exact hderived.foldl (fun hconnected required => hconnected.connect required name) _

theorem dropIdle (h : Alike R before after) (ignored : NameSet) :
    Alike R (before.dropIdle ignored) (after.dropIdle ignored) := by
  have hidle : before.isIdle ignored = after.isIdle ignored := by
    funext name
    unfold isIdle
    rcases h.payload?_cases name with ⟨hb, ha⟩ | ⟨feedstock, known, hb, ha, hr⟩
    · rw [hb, ha]
    · simp only [hb, ha, (hR _ _ hr).allNoarch_eq]
  unfold Graph.dropIdle
  rw [hidle, h.names_eq]
  exact (h.pluckAll _).removeLoops

-- What the rebuilds for other platforms look at of a payload is its recipe.
theorem platformGraph (h : Alike R before after) (profile : Profile) (scope : PlatformScope) :
    Alike R (before.platformGraph profile scope) (after.platformGraph profile scope) := by
  have hkept := (h.derive hR profile).dropWithDescendants scope.excluded
  unfold Graph.platformGraph
  apply Alike.dropIdle hR
  split
  · exact hkept
  · exact hkept.keepWithAncestors scope.allTargets

end Graph.Alike

end Rollout
