import Mathlib.Algebra.BigOperators.Group.Finset.Basic
import Mathlib.Combinatorics.Enumerative.DoubleCounting
import Mathlib.Data.List.Dedup
import Mathlib.Logic.Function.Iterate
import Rollout.Proofs.Graph.Reach
import Rollout.Proofs.Graph.Rebuilt

namespace Rollout.Graph

-- A search on its way: the names it has found, and those that wait to be looked at, first come
-- first served.
structure Search where
  found : NameSet
  waiting : List String

namespace Search

section Steps

variable (next : String → NameSet) (start : String)

def outset : Search := ⟨∅, (next start).toList⟩

-- A look at the first name that waits. If it is found for the first time its neighbours join the
-- end of the queue. The name that the search starts from is passed over whenever it comes up.
def look (search : Search) : Search :=
  match search.waiting with
  | [] => search
  | name :: rest =>
    if name = start ∨ name ∈ search.found then ⟨search.found, rest⟩
    else ⟨search.found.insert name, rest ++ (next name).toList⟩

def after (looks : Nat) : Search := (look next start)^[looks] (outset next start)

-- The names that a search from `start` may come to.
def Comes : String → String → Prop := Relation.ReflTransGen fun a b => b ∈ next a

-- What holds before every look. Only names that can be come to turn up, and no neighbour of a
-- name that was taken up is forgotten.
structure Underway (search : Search) : Prop where
  found : ∀ name ∈ search.found, name ≠ start ∧ Comes next start name
  waiting : ∀ name ∈ search.waiting, Comes next start name
  followed : ∀ name, name = start ∨ name ∈ search.found →
    ∀ neighbour ∈ next name,
      neighbour = start ∨ neighbour ∈ search.found ∨ neighbour ∈ search.waiting

theorem underway_outset : Underway next start (outset next start) where
  found name hm := absurd hm Std.ExtTreeSet.not_mem_empty
  waiting name hm := .single (Std.ExtTreeSet.mem_toList.mp hm)
  followed name hname neighbour hn := by
    obtain rfl := hname.resolve_right Std.ExtTreeSet.not_mem_empty
    exact .inr (.inr (Std.ExtTreeSet.mem_toList.mpr hn))

variable {next start} {search : Search} (h : Underway next start search)
include h

theorem Underway.pass {name : String} {rest : List String} (hw : search.waiting = name :: rest)
    (hold : name = start ∨ name ∈ search.found) : Underway next start ⟨search.found, rest⟩ where
  found := h.found
  waiting n hn := h.waiting n (hw ▸ List.mem_cons_of_mem _ hn)
  followed n hn neighbour hnext := by
    rcases h.followed n hn neighbour hnext with hs | hf | hm
    · exact .inl hs
    · exact .inr (.inl hf)
    · rcases List.mem_cons.mp (hw ▸ hm) with rfl | hm
      · exact hold.imp id .inl
      · exact .inr (.inr hm)

theorem Underway.find {name : String} {rest : List String} (hw : search.waiting = name :: rest)
    (hnew : name ≠ start) :
    Underway next start ⟨search.found.insert name, rest ++ (next name).toList⟩ := by
  have hcomes : Comes next start name := h.waiting name (hw ▸ List.mem_cons_self)
  have hinsert : ∀ n, n ∈ search.found.insert name ↔ n = name ∨ n ∈ search.found := by
    intro n
    rw [Std.ExtTreeSet.mem_insert, Std.compare_eq_iff_eq, eq_comm]
  refine ⟨fun n hn => ?_, fun n hn => ?_, fun n hn neighbour hnext => ?_⟩
  · rcases (hinsert n).mp hn with rfl | hf
    · exact ⟨hnew, hcomes⟩
    · exact h.found n hf
  · rcases List.mem_append.mp hn with hr | hnext
    · exact h.waiting n (hw ▸ List.mem_cons_of_mem _ hr)
    · exact hcomes.tail (Std.ExtTreeSet.mem_toList.mp hnext)
  · simp only [hinsert, List.mem_append, Std.ExtTreeSet.mem_toList] at hn ⊢
    by_cases he : n = name
    · exact .inr (.inr (.inr (he ▸ hnext)))
    · have hn' : n = start ∨ n ∈ search.found := hn.imp id fun hf => hf.resolve_left he
      rcases h.followed n hn' neighbour hnext with hs | hf | hm
      · exact .inl hs
      · exact .inr (.inl (.inr hf))
      · rcases List.mem_cons.mp (hw ▸ hm) with rfl | hm
        · exact .inr (.inl (.inl rfl))
        · exact .inr (.inr (.inl hm))

theorem Underway.look : Underway next start (search.look next start) := by
  unfold Search.look
  split
  · exact h
  · rename_i name rest hw
    split
    · rename_i hold
      exact h.pass hw hold
    · rename_i hnew
      exact h.find hw fun he => hnew (.inl he)

theorem Underway.taken (hdone : search.waiting = []) {name : String} (hcomes : Comes next start name) :
    name = start ∨ name ∈ search.found := by
  induction hcomes with
  | refl => exact .inl rfl
  | @tail last name _ hlast ih => simpa [hdone] using h.followed last ih name hlast

-- When nothing waits any more, all that can be come to has been found.
theorem Underway.mem_found_iff (hdone : search.waiting = []) (name : String) :
    name ∈ search.found ↔ name ≠ start ∧ Comes next start name :=
  ⟨h.found name, fun ⟨hne, hcomes⟩ => (h.taken hdone hcomes).resolve_left hne⟩

end Steps

section Length

variable (next : String → NameSet) (start : String) (names : Finset String)

-- The looks that are still to come at most: one for each name that waits, and one for each
-- neighbour of a name that is not found yet.
def budget (search : Search) : Nat :=
  search.waiting.length +
    ∑ name ∈ names.filter fun name => name ≠ start ∧ name ∉ search.found, (next name).size

variable {next start names} {search : Search}

theorem budget_look (h : Underway next start search)
    (hnext : ∀ name, ∀ neighbour ∈ next name, neighbour ∈ names) (hw : search.waiting ≠ []) :
    budget next start names (search.look next start) + 1 = budget next start names search := by
  obtain ⟨name, rest, hw⟩ := List.exists_cons_of_ne_nil hw
  unfold look
  rw [hw]
  by_cases hold : name = start ∨ name ∈ search.found
  · simp only [budget, hw, hold, if_true, List.length_cons]
    omega
  · obtain ⟨hne, hnew⟩ := not_or.mp hold
    have hname : name ∈ names := by
      cases h.waiting name (hw ▸ List.mem_cons_self) with
      | refl => exact absurd rfl hne
      | tail _ hlast => exact hnext _ _ hlast
    have hmem : name ∈ names.filter fun n => n ≠ start ∧ n ∉ search.found :=
      Finset.mem_filter.mpr ⟨hname, hne, hnew⟩
    have herase : (names.filter fun n => n ≠ start ∧ n ∉ search.found.insert name) =
        (names.filter fun n => n ≠ start ∧ n ∉ search.found).erase name := by
      ext n
      simp only [Finset.mem_filter, Finset.mem_erase, Std.ExtTreeSet.mem_insert,
        Std.compare_eq_iff_eq, eq_comm (a := name)]
      tauto
    have hsum := Finset.add_sum_erase _ (fun n => (next n).size) hmem
    simp only [budget, hw, hold, if_false, herase, List.length_append, List.length_cons,
      Std.ExtTreeSet.length_toList]
    omega

theorem look_of_done (next : String → NameSet) (start : String) (hdone : search.waiting = []) :
    search.look next start = search := by
  unfold look
  rw [hdone]

-- As many looks as there are neighbours come to an end.
theorem done_iterate (hnext : ∀ name, ∀ neighbour ∈ next name, neighbour ∈ names) (looks : Nat)
    (h : Underway next start search) (hb : budget next start names search ≤ looks) :
    Underway next start ((look next start)^[looks] search) ∧
      ((look next start)^[looks] search).waiting = [] := by
  induction looks generalizing search with
  | zero =>
      have hlength : search.waiting.length = 0 := by
        unfold budget at hb
        omega
      exact ⟨h, List.length_eq_zero_iff.mp hlength⟩
  | succ looks ih =>
      by_cases hdone : search.waiting = []
      · rw [Function.iterate_fixed (look_of_done next start hdone)]
        exact ⟨h, hdone⟩
      · rw [Function.iterate_succ_apply]
        apply ih h.look
        have hlook := budget_look h hnext hdone
        omega

theorem budget_outset (hstart : start ∉ names → next start = ∅) :
    budget next start names (outset next start) = ∑ name ∈ names, (next name).size := by
  have hothers : (names.filter fun name => name ≠ start ∧ name ∉ (∅ : NameSet)) = names.erase start := by
    ext name
    simp [and_comm]
  unfold budget outset
  rw [hothers, Std.ExtTreeSet.length_toList]
  by_cases hm : start ∈ names
  · exact Finset.add_sum_erase _ (fun name => (next name).size) hm
  · rw [hstart hm, Finset.erase_eq_of_notMem hm, Std.ExtTreeSet.size_empty, Nat.zero_add]

end Length

end Search

section Graph

variable (graph : Graph)

theorem after_eq_reachable {next : String → NameSet}
    (hnext : ∀ name, ∀ neighbour ∈ next name, name ∈ graph.names ∧ neighbour ∈ graph.names)
    (start : String) :
    Search.after next start (∑ name ∈ graph.names.toFinset, (next name).size) =
      ⟨graph.reachable next start, []⟩ := by
  have hinside : ∀ name, ∀ neighbour ∈ next name, neighbour ∈ graph.names.toFinset :=
    fun name neighbour hn => List.mem_toFinset.mpr (hnext name neighbour hn).2
  have hstart : start ∉ graph.names.toFinset → next start = ∅ := by
    intro hout
    refine Std.ExtTreeSet.ext_mem fun neighbour => iff_of_false (fun hn => hout ?_) ?_
    · exact List.mem_toFinset.mpr (hnext start neighbour hn).1
    · exact Std.ExtTreeSet.not_mem_empty
  obtain ⟨hunderway, hdone⟩ := Search.done_iterate hinside _ (Search.underway_outset next start)
    (Search.budget_outset hstart).le
  have hfound : (Search.after next start (∑ name ∈ graph.names.toFinset, (next name).size)).found =
      graph.reachable next start := by
    refine Std.ExtTreeSet.ext_mem fun name => ?_
    rw [mem_reachable_iff graph next (fun source target hn => (hnext source target hn).2)]
    exact hunderway.mem_found_iff hdone name
  rw [← hfound]
  exact congrArg (Search.mk _) hdone

theorem size_eq_card_filter {names : NameSet} {p : String → Prop} [DecidablePred p]
    (hnames : ∀ name ∈ names, name ∈ graph.names) (hp : ∀ name, name ∈ names ↔ p name) :
    names.size = (graph.names.toFinset.filter p).card := by
  have hnodup : names.toList.Nodup := (NameSet.pairwise_toList names).imp fun hlt => String.ne_of_lt hlt
  rw [← Std.ExtTreeSet.length_toList, ← List.toFinset_card_of_nodup hnodup]
  congr 1
  ext name
  rw [List.mem_toFinset, Std.ExtTreeSet.mem_toList, Finset.mem_filter, List.mem_toFinset, ← hp]
  exact ⟨fun hn => ⟨hnames name hn, hn⟩, And.right⟩

theorem sum_dependents : ∑ name ∈ graph.names.toFinset, (graph.dependents name).size = graph.edgeCount := by
  rw [List.sum_toFinset _ graph.nodup_names, edgeCount, toList_of_keys graph.coherent.downstream,
    List.foldl_map, List.sum_eq_foldl, List.foldl_map]
  rfl

-- Every edge is counted at its target as well as at its source.
theorem sum_dependencies :
    ∑ name ∈ graph.names.toFinset, (graph.dependencies name).size = graph.edgeCount := by
  have hsources : ∀ target, (graph.dependencies target).size =
      (graph.names.toFinset.filter fun source => graph.Edge source target).card := fun target =>
    graph.size_eq_card_filter (fun source he => Edge.source_mem he) fun source => Iff.rfl
  have htargets : ∀ source, (graph.dependents source).size =
      (graph.names.toFinset.filter fun target => graph.Edge source target).card := fun source =>
    graph.size_eq_card_filter
      (fun target he => ((graph.mem_dependents_iff_edge source target).mp he).target_mem)
      (graph.mem_dependents_iff_edge source)
  rw [← sum_dependents]
  simp only [hsources, htargets]
  exact (Finset.sum_card_bipartiteAbove_eq_sum_card_bipartiteBelow graph.Edge).symm

-- A name that can be come to from another one is at the end of a path of at least one edge.
theorem path_iff_transGen {source target : String} (hne : source ≠ target) :
    graph.Path source target ↔ Relation.TransGen graph.Edge source target :=
  ⟨fun hp => (Relation.reflTransGen_iff_eq_or_transGen.mp hp).resolve_left (Ne.symm hne),
    Relation.TransGen.to_reflTransGen⟩

theorem mem_descendants_iff_transGen (name n : String) :
    n ∈ graph.descendants name ↔
      n ∈ graph.names ∧ n ≠ name ∧ Relation.TransGen graph.Edge name n := by
  rw [mem_descendants_iff]
  constructor
  · rintro ⟨hne, hp⟩
    have hway := (graph.path_iff_transGen (Ne.symm hne)).mp hp
    obtain ⟨last, -, he⟩ := Relation.TransGen.tail'_iff.mp hway
    exact ⟨he.target_mem, hne, hway⟩
  · rintro ⟨-, hne, hway⟩
    exact ⟨hne, hway.to_reflTransGen⟩

theorem mem_ancestors_iff_transGen (name n : String) :
    n ∈ graph.ancestors name ↔
      n ∈ graph.names ∧ n ≠ name ∧ Relation.TransGen graph.Edge n name := by
  rw [mem_ancestors_iff]
  constructor
  · rintro ⟨hne, hp⟩
    have hway := (graph.path_iff_transGen hne).mp hp
    obtain ⟨first, he, -⟩ := Relation.TransGen.head'_iff.mp hway
    exact ⟨he.source_mem, hne, hway⟩
  · rintro ⟨-, hne, hway⟩
    exact ⟨hne, hway.to_reflTransGen⟩

-- The descendants and the ancestors of a name, of the graph or not, are what lies at the other end of
-- the paths from it and to it, without the name itself. A search that looks at one name after
-- another has found them after as many looks as there are edges, and then nothing waits.
theorem searches_mirror (name : String) :
    (∀ n, n ∈ graph.descendants name ↔
      n ∈ graph.names ∧ n ≠ name ∧ Relation.TransGen graph.Edge name n) ∧
    (∀ n, n ∈ graph.ancestors name ↔
      n ∈ graph.names ∧ n ≠ name ∧ Relation.TransGen graph.Edge n name) ∧
    (∀ n, n ∈ graph.descendants name ↔ name ∈ graph.ancestors n) ∧
    Search.after graph.dependents name graph.edgeCount = ⟨graph.descendants name, []⟩ ∧
    Search.after graph.dependencies name graph.edgeCount = ⟨graph.ancestors name, []⟩ := by
  refine ⟨graph.mem_descendants_iff_transGen name, graph.mem_ancestors_iff_transGen name,
    fun n => ?_, ?_, ?_⟩
  · rw [mem_descendants_iff, mem_ancestors_iff, ne_comm]
  · rw [← sum_dependents]
    refine graph.after_eq_reachable (fun source target hn => ?_) name
    have he := (graph.mem_dependents_iff_edge source target).mp hn
    exact ⟨he.source_mem, he.target_mem⟩
  · rw [← sum_dependencies]
    exact graph.after_eq_reachable (fun target source he => ⟨Edge.target_mem he, Edge.source_mem he⟩) name

end Graph

end Rollout.Graph
