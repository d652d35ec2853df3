import Rollout.Job
import Rollout.Proofs.PlatformGraph.Requirements

namespace Rollout.Graph

-- Whatever is known in a graph is known in the total one as well, and is the same there.
def Inherits (total graph : Graph) : Prop :=
  ∀ name feedstock, graph.payload? name = some feedstock → total.payload? name = some feedstock

section Scope

variable (total : Graph) (profile : Profile) (scope : PlatformScope)

-- An excluded package, or what requires one, directly or through others.
def Excluded (name : String) : Prop :=
  ∃ package ∈ scope.excluded, Relation.ReflTransGen (total.Requires profile) package name

-- A target package, or what one requires, directly or through others. Targets that are excluded
-- themselves do not count, and the interpreter always is a target.
def Targeted (name : String) : Prop :=
  ∃ package, (package ∈ scope.targets ∨ package = "python") ∧ ¬ total.Excluded profile scope package ∧
    Relation.ReflTransGen (total.Requires profile) name package

-- What the scope of a rebuild covers.
def Covered (name : String) : Prop :=
  ¬ total.Excluded profile scope name ∧ (scope.targets = ∅ ∨ total.Targeted profile scope name)

-- A name for which a rebuild has nothing to do.
def Idle (name : String) : Prop :=
  ∀ feedstock, total.payload? name = some feedstock →
    isStubby name = true ∨ name ∈ profile.ignoredPackages ∨ feedstock.allNoarch = true

end Scope

variable {total : Graph} {profile : Profile} {scope : PlatformScope}

theorem Excluded.step {a b : String} (h : total.Excluded profile scope a)
    (hr : total.Requires profile a b) : total.Excluded profile scope b := by
  obtain ⟨package, hpackage, hway⟩ := h
  exact ⟨package, hpackage, hway.tail hr⟩

theorem Targeted.step {a b : String} (h : total.Targeted profile scope b)
    (hr : total.Requires profile a b) : total.Targeted profile scope a := by
  obtain ⟨package, hpackage, hin, hway⟩ := h
  exact ⟨package, hpackage, hin, hway.head hr⟩

-- What is covered has all that it requires covered.
theorem Covered.step {a b : String} (h : total.Covered profile scope b)
    (hr : total.Requires profile a b) : total.Covered profile scope a :=
  ⟨fun hx => h.1 (hx.step hr), h.2.imp id fun ht => ht.step hr⟩

theorem isIdle_eq_true_iff (graph : Graph) (profile : Profile) (name : String) :
    graph.isIdle profile.ignoredPackages name = true ↔ graph.Idle profile name := by
  rw [← not_iff_not, Bool.not_eq_true, isIdle_eq_false_iff]
  simp [Idle]

theorem not_idle_iff (graph : Graph) (profile : Profile) (name : String) :
    ¬ graph.Idle profile name ↔ ∃ feedstock, graph.payload? name = some feedstock ∧
      isStubby name = false ∧ name ∉ profile.ignoredPackages ∧ feedstock.allNoarch = false := by
  rw [← isIdle_eq_true_iff, Bool.not_eq_true, isIdle_eq_false_iff]

theorem mem_allTargets_iff (hne : scope.targets ≠ ∅) (package : String) :
    package ∈ scope.allTargets ↔ package ∈ scope.targets ∨ package = "python" := by
  have hempty : scope.targets.isEmpty = false := by
    rw [← Bool.not_eq_true, Std.ExtTreeSet.isEmpty_iff]
    exact hne
  simp [PlatformScope.allTargets, hempty, Std.ExtTreeSet.mem_insert, or_comm, eq_comm (a := package)]

section Kept

variable (total profile scope)

theorem downstream_derive_iff (name : String) :
    (total.derive profile).Downstream scope.excluded name ↔ total.Excluded profile scope name := by
  have hedge : (total.derive profile).Edge = total.Requires profile := by
    funext a b
    exact propext (total.edge_derive profile a b)
  rw [Downstream, Path, hedge]
  rfl

theorem payload?_kept (name : String) (feedstock : Feedstock) :
    ((total.derive profile).dropWithDescendants scope.excluded).payload? name = some feedstock ↔
      total.payload? name = some feedstock ∧ ¬ total.Excluded profile scope name := by
  rw [payload?_dropWithDescendants, payload?_derive, downstream_derive_iff]

theorem edge_kept (a b : String) :
    ((total.derive profile).dropWithDescendants scope.excluded).Edge a b ↔
      total.Requires profile a b ∧ a ≠ b ∧ ¬ total.Excluded profile scope a ∧
        ¬ total.Excluded profile scope b := by
  rw [edge_dropWithDescendants, edge_derive, downstream_derive_iff, downstream_derive_iff]

-- A way to a package that is not excluded meets nothing that is, so it stays.
theorem path_kept_iff {name : String} (hname : ¬ total.Excluded profile scope name)
    (package : String) :
    ((total.derive profile).dropWithDescendants scope.excluded).Path name package ↔
      ¬ total.Excluded profile scope package ∧
        Relation.ReflTransGen (total.Requires profile) name package := by
  constructor
  · intro hp
    induction hp with
    | refl => exact ⟨hname, .refl⟩
    | tail _ he ih =>
        obtain ⟨hr, -, -, hout⟩ := (total.edge_kept profile scope _ _).mp he
        exact ⟨hout, ih.2.tail hr⟩
  · rintro ⟨hout, hway⟩
    induction hway with
    | refl => exact .refl
    | @tail last package _ hr ih =>
        have hlast : ¬ total.Excluded profile scope last := fun hx => hout (hx.step hr)
        by_cases he : last = package
        · exact he ▸ ih hlast
        · exact (ih hlast).tail ((total.edge_kept profile scope last package).mpr ⟨hr, he, hlast, hout⟩)

theorem upstream_kept_iff (hne : scope.targets ≠ ∅) (name : String)
    (hname : ¬ total.Excluded profile scope name) :
    ((total.derive profile).dropWithDescendants scope.excluded).Upstream scope.allTargets name ↔
      total.Targeted profile scope name := by
  simp only [Upstream, path_kept_iff total profile scope hname, mem_allTargets_iff hne]
  rfl

-- The graph before the idle names are plucked out of it.
def covered : Graph :=
  if scope.targets.isEmpty then (total.derive profile).dropWithDescendants scope.excluded
  else ((total.derive profile).dropWithDescendants scope.excluded).keepWithAncestors scope.allTargets

theorem platformGraph_eq_dropIdle :
    total.platformGraph profile scope =
      (total.covered profile scope).dropIdle profile.ignoredPackages := rfl

theorem payload?_covered (name : String) (feedstock : Feedstock) :
    (total.covered profile scope).payload? name = some feedstock ↔
      total.payload? name = some feedstock ∧ total.Covered profile scope name := by
  unfold covered Covered
  by_cases hempty : scope.targets = ∅
  · rw [if_pos (Std.ExtTreeSet.isEmpty_iff.mpr hempty), payload?_kept]
    simp [hempty]
  · rw [if_neg (fun h => hempty (Std.ExtTreeSet.isEmpty_iff.mp h)), payload?_keepWithAncestors,
      payload?_kept, and_assoc]
    refine and_congr_right fun _ => and_congr_right fun hname => ?_
    rw [upstream_kept_iff total profile scope hempty name hname, or_iff_right hempty]

theorem edge_covered (a b : String) :
    (total.covered profile scope).Edge a b ↔
      total.Requires profile a b ∧ a ≠ b ∧ total.Covered profile scope a ∧
        total.Covered profile scope b := by
  unfold covered Covered
  by_cases hempty : scope.targets = ∅
  · rw [if_pos (Std.ExtTreeSet.isEmpty_iff.mpr hempty), edge_kept]
    simp [hempty]
  · rw [if_neg (fun h => hempty (Std.ExtTreeSet.isEmpty_iff.mp h)), edge_keepWithAncestors, edge_kept]
    have hupstream := upstream_kept_iff total profile scope hempty
    simp only [hempty, false_or]
    constructor
    · rintro ⟨⟨hr, hne, ha, hb⟩, -, hua, hub⟩
      exact ⟨hr, hne, ⟨ha, (hupstream a ha).mp hua⟩, hb, (hupstream b hb).mp hub⟩
    · rintro ⟨hr, hne, ⟨ha, hta⟩, hb, htb⟩
      exact ⟨⟨hr, hne, ha, hb⟩, hne, (hupstream a ha).mpr hta, (hupstream b hb).mpr htb⟩

theorem idle_covered_iff {name : String} (h : total.Covered profile scope name) :
    (total.covered profile scope).Idle profile name ↔ total.Idle profile name := by
  simp only [Idle, payload?_covered, h, and_true]

end Kept

section Extent

variable (total profile scope)

theorem mem_names_platformGraph (name : String) :
    name ∈ (total.platformGraph profile scope).names ↔
      ¬ total.Idle profile name ∧ total.Covered profile scope name := by
  rw [platformGraph_eq_dropIdle, mem_names_dropIdle, ← Bool.not_eq_true, isIdle_eq_true_iff]
  constructor
  · intro hbusy
    have hcovered : total.Covered profile scope name := by
      by_contra hout
      refine hbusy fun feedstock hp => ?_
      exact absurd ((total.payload?_covered profile scope name feedstock).mp hp).2 hout
    exact ⟨fun hidle => hbusy ((idle_covered_iff total profile scope hcovered).mpr hidle), hcovered⟩
  · rintro ⟨hbusy, hcovered⟩ hidle
    exact hbusy ((idle_covered_iff total profile scope hcovered).mp hidle)

theorem payload?_platformGraph (name : String) (feedstock : Feedstock) :
    (total.platformGraph profile scope).payload? name = some feedstock ↔
      name ∈ (total.platformGraph profile scope).names ∧ total.payload? name = some feedstock := by
  rw [platformGraph_eq_dropIdle, payload?_dropIdle_eq_some_iff, payload?_covered]
  refine and_congr_right fun hm => and_iff_left ?_
  rw [← platformGraph_eq_dropIdle, mem_names_platformGraph] at hm
  exact hm.2

-- The graph of a rebuild has edges and names of its own, but no knowledge of its own.
theorem inherits_platformGraph : total.Inherits (total.platformGraph profile scope) :=
  fun name feedstock hp => ((total.payload?_platformGraph profile scope name feedstock).mp hp).2

theorem exists_payload?_platformGraph {name : String}
    (hm : name ∈ (total.platformGraph profile scope).names) :
    ∃ feedstock, (total.platformGraph profile scope).payload? name = some feedstock := by
  obtain ⟨hbusy, -⟩ := (total.mem_names_platformGraph profile scope name).mp hm
  obtain ⟨feedstock, hp, -⟩ := (total.not_idle_iff profile name).mp hbusy
  exact ⟨feedstock, (total.payload?_platformGraph profile scope name feedstock).mpr ⟨hm, hp⟩⟩

-- What lies between covered names is covered too, so the ways through idle names are those of the
-- requirements themselves.
theorem edge_platformGraph (a b : String) :
    (total.platformGraph profile scope).Edge a b ↔
      a ∈ (total.platformGraph profile scope).names ∧
        b ∈ (total.platformGraph profile scope).names ∧ a ≠ b ∧
          Via (total.Requires profile) (total.Idle profile) a b := by
  have hstep := total.edge_covered profile scope
  simp only [platformGraph_eq_dropIdle, mem_names_dropIdle, edge_dropIdle, isIdle_eq_true_iff]
  refine and_congr_right fun ha => and_congr_right fun hb => and_congr_right fun hne => ?_
  constructor
  · intro hway
    refine hway.mono (fun a b he => ((hstep a b).mp he).1) fun a b hidle he => ?_
    exact (idle_covered_iff total profile scope ((hstep a b).mp he).2.2.1).mp hidle
  · intro hway
    rw [← mem_names_dropIdle, ← platformGraph_eq_dropIdle, mem_names_platformGraph] at hb
    have hcovered := (hway.restrict (fun _ _ hr hc => Covered.step hc hr) hb.2).without_loops hne
    refine hcovered.mono (fun a b h => (hstep a b).mpr ⟨h.1.1, h.2, h.1.2⟩) fun a b hidle h => ?_
    exact (idle_covered_iff total profile scope h.1.2.1).mpr hidle

end Extent

end Rollout.Graph

namespace Rollout.Job

-- A rebuild's graph is what the scope covers and is not idle. Requirements join its feedstocks
-- directly or through idle names; neither the order of the steps that derive it nor cycles of
-- requirements have a part in it.
theorem rebuild_graph_exact (profile : Profile) (own : Option String) (total : Graph)
    (scope : PlatformScope) (prLimit : Nat) (piggybacks : List Piggyback) :
    let working := (rebuild profile own total scope prLimit piggybacks).workingGraph total
    (∀ name, name ∈ working.names ↔
      ∃ feedstock, total.payload? name = some feedstock ∧ Graph.isStubby name = false ∧
        name ∉ profile.ignoredPackages ∧ feedstock.allNoarch = false ∧
        ¬ total.Excluded profile scope name ∧
        (scope.targets = ∅ ∨ total.Targeted profile scope name)) ∧
    (∀ name feedstock, working.payload? name = some feedstock ↔
      name ∈ working.names ∧ total.payload? name = some feedstock) ∧
    ∀ source target, working.Edge source target ↔
      source ∈ working.names ∧ target ∈ working.names ∧ source ≠ target ∧
        Via (total.Requires profile) (total.Idle profile) source target := by
  intro working
  refine ⟨fun name => ?_, total.payload?_platformGraph profile scope,
    total.edge_platformGraph profile scope⟩
  have hname := total.mem_names_platformGraph profile scope name
  rw [Graph.not_idle_iff, Graph.Covered] at hname
  refine hname.trans ⟨?_, ?_⟩
  · rintro ⟨⟨feedstock, hp, hstub, hignored, hnoarch⟩, hout, htarget⟩
    exact ⟨feedstock, hp, hstub, hignored, hnoarch, hout, htarget⟩
  · rintro ⟨feedstock, hp, hstub, hignored, hnoarch, hout, htarget⟩
    exact ⟨⟨feedstock, hp, hstub, hignored, hnoarch⟩, hout, htarget⟩

end Rollout.Job
