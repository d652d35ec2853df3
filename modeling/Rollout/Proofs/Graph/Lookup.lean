import Rollout.Graph

namespace Rollout.Graph

theorem mem_names (graph : Graph) (name : String) :
    name ∈ graph.names ↔ graph.contains name = true := by
  rw [names, Std.ExtTreeMap.mem_keys, contains, Std.ExtTreeMap.mem_iff_contains]

theorem nodup_names (graph : Graph) : graph.names.Nodup := Std.ExtTreeMap.nodup_keys

theorem pairwise_names (graph : Graph) : graph.names.Pairwise (· < ·) := NameMap.pairwise_keys _

theorem mem_nameSet (graph : Graph) (name : String) :
    name ∈ graph.nameSet ↔ name ∈ graph.names := NameSet.mem_ofList _ _

theorem mem_names_of_payload? {graph : Graph} {name : String} {feedstock : Feedstock}
    (h : graph.payload? name = some feedstock) : name ∈ graph.names := by
  have hentry : graph.vertices.payloads[name]? = some (some feedstock) := Option.join_eq_some_iff.mp h
  exact Std.ExtTreeMap.mem_keys.mpr (Std.ExtTreeMap.mem_iff_isSome_getElem?.mpr (by rw [hentry]; rfl))

theorem payload?_eq_none_of_not_mem {graph : Graph} {name : String} (h : name ∉ graph.names) :
    graph.payload? name = none := by
  cases hp : graph.payload? name with
  | none => rfl
  | some feedstock => exact absurd (mem_names_of_payload? hp) h

theorem payload_eq_ok_iff (graph : Graph) (name : String) (feedstock : Feedstock) :
    graph.payload name = .ok feedstock ↔ graph.payload? name = some feedstock := by
  unfold payload
  cases graph.payload? name <;> simp

theorem payload_eq_error_iff (graph : Graph) (name : String) (fault : Fault) :
    graph.payload name = .error fault ↔ graph.payload? name = none ∧ fault = .noPayload name := by
  unfold payload
  cases graph.payload? name <;> simp [eq_comm]

theorem payload?_addName (graph : Graph) (name n : String) :
    (graph.addName name).payload? n = graph.payload? n := by
  simp only [payload?, addName, Vertices.ensure, Std.ExtTreeMap.getElem?_alter, Std.compare_eq_iff_eq]
  split
  · rename_i h
    subst h
    cases graph.vertices.payloads[name]? <;> rfl
  · rfl

theorem payload?_add (graph : Graph) (name n : String) (feedstock : Feedstock) :
    (graph.add name feedstock).payload? n = if name = n then some feedstock else graph.payload? n := by
  rw [← graph.payload?_addName name]
  simp only [payload?, add, addName, Vertices.setPayload, Std.ExtTreeMap.getElem?_insert,
    Std.compare_eq_iff_eq]
  split <;> rfl

-- Edges are not kept where payloads are.
theorem payload?_connect (graph : Graph) (source target n : String) :
    (graph.connect source target).payload? n = graph.payload? n :=
  ((graph.addName source).payload?_addName target n).trans (graph.payload?_addName source n)

theorem payload?_disconnect (graph : Graph) (source target n : String) :
    (graph.disconnect source target).payload? n = graph.payload? n := rfl

theorem payload?_remove (graph : Graph) (name n : String) :
    (graph.remove name).payload? n = if name = n then none else graph.payload? n := by
  simp only [payload?, remove, Vertices.remove, Std.ExtTreeMap.getElem?_erase, Std.compare_eq_iff_eq]
  split <;> rfl

theorem mem_names_iff (graph : Graph) (n : String) : n ∈ graph.names ↔ n ∈ graph.vertices.payloads :=
  Std.ExtTreeMap.mem_keys

theorem mem_names_addName (graph : Graph) (name n : String) :
    n ∈ (graph.addName name).names ↔ n = name ∨ n ∈ graph.names := by
  simp only [mem_names_iff]
  exact graph.vertices.mem_payloads_ensure name n

theorem mem_names_add (graph : Graph) (name n : String) (feedstock : Feedstock) :
    n ∈ (graph.add name feedstock).names ↔ n = name ∨ n ∈ graph.names := by
  simp only [mem_names_iff]
  exact graph.vertices.mem_payloads_setPayload name n feedstock

theorem mem_names_connect (graph : Graph) (source target n : String) :
    n ∈ (graph.connect source target).names ↔ n = target ∨ n = source ∨ n ∈ graph.names := by
  rw [← mem_names_addName, ← mem_names_addName]
  rfl

theorem mem_names_disconnect (graph : Graph) (source target n : String) :
    n ∈ (graph.disconnect source target).names ↔ n ∈ graph.names := Iff.rfl

theorem mem_names_remove (graph : Graph) (name n : String) :
    n ∈ (graph.remove name).names ↔ n ≠ name ∧ n ∈ graph.names := by
  simp only [mem_names_iff, remove, Vertices.remove, Std.ExtTreeMap.mem_erase, ne_eq,
    Std.compare_eq_iff_eq, eq_comm (a := name)]

theorem dependencies_add (graph : Graph) (name n : String) (feedstock : Feedstock) :
    (graph.add name feedstock).dependencies n = graph.dependencies n :=
  graph.vertices.upstream.neighbours_ensure name n

end Rollout.Graph
