import Std.Data.ExtTreeMap
import Std.Data.ExtTreeSet

namespace Rollout

-- A set of names. Its elements are listed in ascending order of their code points.
abbrev NameSet := Std.ExtTreeSet String

-- Values under names, listed in ascending order of the names.
abbrev NameMap (α : Type) := Std.ExtTreeMap String α

namespace NameSet

def ofList (names : List String) : NameSet := Std.ExtTreeSet.ofList names compare

theorem mem_ofList (names : List String) (name : String) : name ∈ ofList names ↔ name ∈ names := by
  simp [ofList, Std.ExtTreeSet.mem_ofList]

theorem pairwise_toList (names : NameSet) : names.toList.Pairwise (· < ·) := by
  have hordered : names.toList.Pairwise fun a b => compare a b = .lt := Std.ExtTreeSet.ordered_toList
  exact hordered.imp compareOfLessAndEq_eq_lt.mp

end NameSet

theorem NameMap.pairwise_keys {α : Type} (map : NameMap α) : map.keys.Pairwise (· < ·) := by
  have hordered : map.keys.Pairwise fun a b => compare a b = .lt := Std.ExtTreeMap.ordered_keys
  exact hordered.imp compareOfLessAndEq_eq_lt.mp

end Rollout
