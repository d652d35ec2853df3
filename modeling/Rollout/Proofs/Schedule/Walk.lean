import Rollout.Proofs.Graph.Paths
import Rollout.Schedule

namespace Rollout.Graph

-- The names that a walk has begun with: those on its stack and those that are done.
def begun (stack : List Visit) (progress : Progress) : List String :=
  stack.map Visit.name ++ progress.done

-- The names of a list, last one first, stand after everything they depend on. A
-- dependency that can be reached again lies on a cycle and may come later.
def Ordered (graph : Graph) (done : List String) : Prop :=
  ∀ name earlier, (name :: earlier) <:+ done →
    ∀ source, graph.Edge source name → source ≠ name → ¬ graph.Path name source → source ∈ earlier

-- What holds before every step of a walk. Each name on the stack is there because
-- the next outer one depends on it, so it has a path to all that are further out.
structure Walking (graph : Graph) (stack : List Visit) (progress : Progress) : Prop where
  nodup : (begun stack progress).Nodup
  cover : ∀ name, name ∈ graph.names ↔ name ∈ begun stack progress ∨ name ∈ progress.unvisited
  visited : ∀ name ∈ begun stack progress, name ∉ progress.unvisited
  looked : ∀ visit ∈ stack, ∀ source, graph.Edge source visit.name →
    source ∈ visit.pending ∨ source ∉ progress.unvisited
  pending : ∀ visit ∈ stack, ∀ source ∈ visit.pending, graph.Edge source visit.name
  chained : (stack.map Visit.name).IsChain graph.Edge
  ordered : graph.Ordered progress.done

theorem Ordered.cons {graph : Graph} {done : List String} (h : graph.Ordered done) (name : String)
    (hname : ∀ source, graph.Edge source name → source ≠ name → ¬ graph.Path name source →
      source ∈ done) : graph.Ordered (name :: done) := by
  intro last earlier hs
  rcases List.suffix_cons_iff.mp hs with he | hs
  · obtain ⟨rfl, rfl⟩ := List.cons.inj he
    exact hname
  · exact h last earlier hs

-- A visit is put on a stack whose names are those of the stack it is put in place of.
theorem Walking.push {graph : Graph} {stack outer : List Visit} {progress : Progress}
    (h : graph.Walking stack progress) (next : String) (hnext : next ∈ progress.unvisited)
    (hnames : outer.map Visit.name = stack.map Visit.name)
    (hlooked : ∀ visit ∈ outer, ∀ source, graph.Edge source visit.name →
      source ∈ visit.pending ∨ source ∉ progress.unvisited.erase next)
    (hpending : ∀ visit ∈ outer, ∀ source ∈ visit.pending, graph.Edge source visit.name)
    (hchained : (next :: outer.map Visit.name).IsChain graph.Edge) :
    graph.Walking (graph.visitOf next :: outer)
      { progress with unvisited := progress.unvisited.erase next } := by
  have hbegun : begun (graph.visitOf next :: outer)
      { progress with unvisited := progress.unvisited.erase next } = next :: begun stack progress := by
    simp only [begun, List.map_cons, hnames, List.cons_append, visitOf]
  constructor
  · rw [hbegun]
    exact List.nodup_cons.mpr ⟨fun hm => h.visited next hm hnext, h.nodup⟩
  · intro name
    rw [hbegun, h.cover name, List.mem_cons, Std.ExtTreeSet.mem_erase]
    by_cases he : name = next
    · simp [he, hnext]
    · simp [he, Ne.symm he]
  · rw [hbegun]
    intro name hm
    rcases List.mem_cons.mp hm with rfl | hm
    · simp
    · exact fun he => h.visited name hm (Std.ExtTreeSet.mem_of_mem_erase he)
  · intro visit hv source he
    rcases List.mem_cons.mp hv with rfl | hv
    · exact .inl (Std.ExtTreeSet.mem_toList.mpr he)
    · exact hlooked visit hv source he
  · intro visit hv source hs
    rcases List.mem_cons.mp hv with rfl | hv
    · exact Std.ExtTreeSet.mem_toList.mp hs
    · exact hpending visit hv source hs
  · exact hchained
  · exact h.ordered

theorem Walking.finish {graph : Graph} {outer : List Visit} {progress : Progress} {name : String}
    (h : graph.Walking (⟨name, []⟩ :: outer) progress) :
    graph.Walking outer { progress with done := name :: progress.done } := by
  have hperm : (begun outer { progress with done := name :: progress.done }).Perm
      (begun (⟨name, []⟩ :: outer) progress) := List.perm_middle
  constructor
  · exact hperm.nodup_iff.mpr h.nodup
  · intro other
    rw [h.cover other, hperm.mem_iff]
  · exact fun other hm => h.visited other (hperm.mem_iff.mp hm)
  · exact fun visit hv => h.looked visit (List.mem_cons_of_mem _ hv)
  · exact fun visit hv => h.pending visit (List.mem_cons_of_mem _ hv)
  · exact List.IsChain.tail h.chained
  -- Each dependency is done, is the name itself, or is further out on the stack and so on
  -- a cycle with the name.
  · apply h.ordered.cons
    intro source he hne hpath
    have hvisited : source ∉ progress.unvisited :=
      (h.looked _ List.mem_cons_self source he).resolve_left List.not_mem_nil
    have hbegun := ((h.cover source).mp he.source_mem).resolve_right hvisited
    rcases List.mem_append.mp hbegun with hs | hd
    · rcases List.mem_cons.mp hs with hs | hs
      · exact absurd hs hne
      · exact absurd (graph.path_of_isChain name _ h.chained source hs) hpath
    · exact hd

section Dependency

variable {graph : Graph} {outer : List Visit} {progress : Progress} {name next : String}
  {pending : List String} (h : graph.Walking (⟨name, next :: pending⟩ :: outer) progress)
include h

theorem Walking.pending_tail (visit : Visit) (hv : visit ∈ ⟨name, pending⟩ :: outer)
    (source : String) (hs : source ∈ visit.pending) : graph.Edge source visit.name := by
  rcases List.mem_cons.mp hv with rfl | hv
  · exact h.pending _ List.mem_cons_self source (List.mem_cons_of_mem _ hs)
  · exact h.pending visit (List.mem_cons_of_mem _ hv) source hs

theorem Walking.looked_tail (visit : Visit) (hv : visit ∈ ⟨name, pending⟩ :: outer)
    (source : String) (he : graph.Edge source visit.name) :
    source ∈ visit.pending ∨ source = next ∨ source ∉ progress.unvisited := by
  rcases List.mem_cons.mp hv with rfl | hv
  · rcases h.looked _ List.mem_cons_self source he with hp | hp
    · exact (List.mem_cons.mp hp).elim (fun hs => .inr (.inl hs)) .inl
    · exact .inr (.inr hp)
  · exact (h.looked visit (List.mem_cons_of_mem _ hv) source he).imp_right .inr

theorem Walking.enter (hnext : next ∈ progress.unvisited) :
    graph.Walking (graph.visitOf next :: ⟨name, pending⟩ :: outer)
      { progress with unvisited := progress.unvisited.erase next } := by
  have he : graph.Edge next name := h.pending _ List.mem_cons_self next List.mem_cons_self
  refine h.push next hnext rfl ?_ h.pending_tail (List.isChain_cons_cons.mpr ⟨he, h.chained⟩)
  intro visit hv source hs
  rcases h.looked_tail visit hv source hs with hp | rfl | hp
  · exact .inl hp
  · exact .inr (by simp)
  · exact .inr fun hm => hp (Std.ExtTreeSet.mem_of_mem_erase hm)

theorem Walking.pass (hnext : next ∉ progress.unvisited) :
    graph.Walking (⟨name, pending⟩ :: outer) progress := by
  refine ⟨h.nodup, h.cover, h.visited, ?_, h.pending_tail, h.chained, h.ordered⟩
  intro visit hv source hs
  rcases h.looked_tail visit hv source hs with hp | rfl | hp
  · exact .inl hp
  · exact .inr hnext
  · exact .inr hp

end Dependency

theorem Walking.walk {graph : Graph} {stack : List Visit} {progress : Progress}
    (h : graph.Walking stack progress) : graph.Walking [] (graph.walk stack progress) := by
  fun_induction Graph.walk graph stack progress with
  | case1 progress => exact h
  | case2 progress name outer ih => exact ih h.finish
  | case3 progress name next pending outer hnext ih => exact ih (h.enter hnext)
  | case4 progress name next pending outer hnext ih => exact ih (h.pass hnext)

theorem mem_unvisited_of_walk (graph : Graph) (stack : List Visit) (progress : Progress)
    (name : String) (hm : name ∈ (graph.walk stack progress).unvisited) :
    name ∈ progress.unvisited := by
  fun_induction Graph.walk graph stack progress with
  | case1 progress => exact hm
  | case2 progress _ outer ih => exact ih hm
  | case3 progress _ next pending outer hnext ih => exact Std.ExtTreeSet.mem_of_mem_erase (ih hm)
  | case4 progress _ next pending outer hnext ih => exact ih hm

end Rollout.Graph
