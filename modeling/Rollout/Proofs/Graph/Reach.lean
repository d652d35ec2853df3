import Rollout.Proofs.Graph.Edges

namespace Rollout.Graph

section Search

variable (next : String → NameSet)

theorem mem_unseen_of_mem_unreached {unseen : NameSet} {waiting : List String} {name : String}
    (h : name ∈ unreached next unseen waiting) : name ∈ unseen := by
  fun_induction unreached next unseen waiting with
  | case1 => exact h
  | case2 unseen first rest _ ih => exact (Std.ExtTreeSet.mem_erase.mp (ih h)).2
  | case3 unseen first rest _ ih => exact ih h

-- A search takes up only what it comes to from a waiting name.
theorem exists_waiting_of_reached {unseen : NameSet} {waiting : List String} {name : String}
    (hunseen : name ∈ unseen) (h : name ∉ unreached next unseen waiting) :
    ∃ first ∈ waiting, Relation.ReflTransGen (fun a b => b ∈ next a) first name := by
  fun_induction unreached next unseen waiting with
  | case1 => exact absurd hunseen h
  | case2 unseen first rest _ ih =>
      by_cases he : first = name
      · exact ⟨first, List.mem_cons_self, he ▸ .refl⟩
      · have hrest : name ∈ unseen.erase first :=
          Std.ExtTreeSet.mem_erase.mpr ⟨fun hc => he (Std.compare_eq_iff_eq.mp hc), hunseen⟩
        obtain ⟨start, hstart, hway⟩ := ih hrest h
        rcases List.mem_append.mp hstart with hnext | hwaiting
        · exact ⟨first, List.mem_cons_self, .head (Std.ExtTreeSet.mem_toList.mp hnext) hway⟩
        · exact ⟨start, List.mem_cons_of_mem _ hwaiting, hway⟩
  | case3 unseen first rest _ ih =>
      obtain ⟨start, hstart, hway⟩ := ih hunseen h
      exact ⟨start, List.mem_cons_of_mem _ hstart, hway⟩

-- No waiting name is left unseen, and neither is a neighbour of a name that was taken up.
theorem closed_of_unreached (unseen : NameSet) (waiting : List String) :
    (∀ name ∈ waiting, name ∉ unreached next unseen waiting) ∧
      ∀ name ∈ unseen, name ∉ unreached next unseen waiting →
        ∀ neighbour ∈ next name, neighbour ∉ unreached next unseen waiting := by
  fun_induction unreached next unseen waiting with
  | case1 => exact ⟨by simp, fun name hm hout => absurd hm hout⟩
  | case2 unseen first rest _ ih =>
      obtain ⟨hwaiting, hclosed⟩ := ih
      have hfirst : first ∉ unreached next (unseen.erase first) ((next first).toList ++ rest) := by
        intro hm
        exact (Std.ExtTreeSet.mem_erase.mp (mem_unseen_of_mem_unreached next hm)).1 (by simp)
      refine ⟨fun name hm => ?_, fun name hm hout neighbour hn => ?_⟩
      · rcases List.mem_cons.mp hm with rfl | hm
        · exact hfirst
        · exact hwaiting name (List.mem_append_right _ hm)
      · by_cases he : first = name
        · subst he
          exact hwaiting neighbour (List.mem_append_left _ (Std.ExtTreeSet.mem_toList.mpr hn))
        · have hrest : name ∈ unseen.erase first :=
            Std.ExtTreeSet.mem_erase.mpr ⟨fun hc => he (Std.compare_eq_iff_eq.mp hc), hm⟩
          exact hclosed name hrest hout neighbour hn
  | case3 unseen first rest hseen ih =>
      obtain ⟨hwaiting, hclosed⟩ := ih
      refine ⟨fun name hm => ?_, hclosed⟩
      rcases List.mem_cons.mp hm with rfl | hm
      · intro hu
        exact hseen (Std.ExtTreeSet.contains_iff_mem.mpr (mem_unseen_of_mem_unreached next hu))
      · exact hwaiting name hm

end Search

-- A search finds the names that can be come to, apart from the one it starts at.
theorem mem_reachable_iff (graph : Graph) (next : String → NameSet)
    (hnext : ∀ source, ∀ target ∈ next source, target ∈ graph.names) (name n : String) :
    n ∈ graph.reachable next name ↔
      n ≠ name ∧ Relation.ReflTransGen (fun a b => b ∈ next a) name n := by
  have hothers : ∀ other, other ∈ graph.nameSet.erase name ↔ other ≠ name ∧ other ∈ graph.names := by
    intro other
    rw [Std.ExtTreeSet.mem_erase, mem_nameSet, ne_eq, Std.compare_eq_iff_eq, eq_comm]
  unfold reachable
  rw [Std.ExtTreeSet.mem_diff_iff, hothers]
  constructor
  · rintro ⟨⟨hne, hm⟩, hout⟩
    obtain ⟨first, hfirst, hway⟩ :=
      exists_waiting_of_reached next ((hothers n).mpr ⟨hne, hm⟩) hout
    exact ⟨hne, .head (Std.ExtTreeSet.mem_toList.mp hfirst) hway⟩
  · rintro ⟨hne, hway⟩
    obtain ⟨hwaiting, hclosed⟩ :=
      closed_of_unreached next (graph.nameSet.erase name) (next name).toList
    -- The way may come back to the name itself, whose neighbours are the waiting ones.
    have hfound : n = name ∨ n ∈ graph.names ∧
        n ∉ unreached next (graph.nameSet.erase name) (next name).toList := by
      induction hway with
      | refl => exact .inl rfl
      | @tail last target hway hlast ih =>
          refine .inr ⟨hnext last target hlast, ?_⟩
          by_cases he : last = name
          · subst he
            exact hwaiting target (Std.ExtTreeSet.mem_toList.mpr hlast)
          · obtain ⟨hm, hout⟩ := (ih he).resolve_left he
            exact hclosed last ((hothers last).mpr ⟨he, hm⟩) hout target hlast
    obtain ⟨hm, hout⟩ := hfound.resolve_left hne
    exact ⟨⟨hne, hm⟩, hout⟩

theorem mem_descendants_iff (graph : Graph) (name n : String) :
    n ∈ graph.descendants name ↔ n ≠ name ∧ graph.Path name n := by
  rw [descendants, mem_reachable_iff]
  · simp only [mem_dependents_iff_edge]
    rfl
  · exact fun source target he => ((graph.mem_dependents_iff_edge source target).mp he).target_mem

theorem mem_ancestors_iff (graph : Graph) (name n : String) :
    n ∈ graph.ancestors name ↔ n ≠ name ∧ graph.Path n name := by
  rw [ancestors, mem_reachable_iff]
  · simp only [mem_dependencies_iff_edge]
    exact and_congr_right fun _ => ⟨fun h => h.swap, fun h => h.swap⟩
  · exact fun target source he => Edge.source_mem he

end Rollout.Graph
