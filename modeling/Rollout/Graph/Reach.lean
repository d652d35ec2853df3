import Rollout.Graph

namespace Rollout

theorem size_erase_lt_of_contains (names : NameSet) (name : String) (h : names.contains name = true) :
    (names.erase name).size < names.size := by
  have hpos : 0 < names.size := by
    rcases Nat.eq_zero_or_pos names.size with h0 | h0
    · have : names = ∅ := Std.ExtTreeSet.isEmpty_iff.mp (by simp [Std.ExtTreeSet.isEmpty_eq_size_beq_zero, h0])
      subst this
      simp at h
    · exact h0
  rw [Std.ExtTreeSet.size_erase, if_pos h]
  omega

namespace Graph

-- The names that a search leaves unseen. `waiting` are the names still to be looked
-- at; a name that is seen for the first time adds its neighbours to them.
def unreached (next : String → NameSet) (unseen : NameSet) (waiting : List String) : NameSet :=
  match waiting with
  | [] => unseen
  | name :: rest =>
    if _h : unseen.contains name then
      unreached next (unseen.erase name) ((next name).toList ++ rest)
    else unreached next unseen rest
termination_by (unseen.size, waiting.length)
decreasing_by
  · exact Prod.Lex.left _ _ (size_erase_lt_of_contains unseen name _h)
  · exact Prod.Lex.right _ (by simp)

-- The names other than `name` that a search from its neighbours finds.
def reachable (graph : Graph) (next : String → NameSet) (name : String) : NameSet :=
  let others := graph.nameSet.erase name
  others \ unreached next others (next name).toList

-- Every other feedstock that depends on a feedstock, directly or through others.
def descendants (graph : Graph) (name : String) : NameSet :=
  graph.reachable graph.dependents name

-- Every other feedstock that a feedstock depends on, directly or through others.
def ancestors (graph : Graph) (name : String) : NameSet :=
  graph.reachable graph.dependencies name

end Graph

end Rollout
