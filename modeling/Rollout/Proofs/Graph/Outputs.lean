import Rollout.Graph.Outputs
import Rollout.Proofs.Graph.Elimination

namespace Rollout

namespace OutputTable

-- Every output of a table has a producer.
def Inhabited (table : OutputTable) : Prop :=
  ∀ (output : String) (producers : NameSet), table[output]? = some producers →
    ∃ name, name ∈ producers

theorem getElem?_addProducer (table : OutputTable) (output producer other : String) :
    (table.addProducer output producer)[other]? =
      if output = other then some ((table.producers other).insert producer) else table[other]? := by
  simp only [addProducer, Std.ExtTreeMap.getElem?_alter, Std.compare_eq_iff_eq, producers]
  split
  · rename_i h
    subst h
    cases table[output]? <;> rfl
  · rfl

theorem mem_producers_addProducer (table : OutputTable) (output producer other name : String) :
    name ∈ (table.addProducer output producer).producers other ↔
      name ∈ table.producers other ∨ other = output ∧ name = producer := by
  by_cases h : output = other
  · simp [producers, getElem?_addProducer, h, or_comm, eq_comm (a := name)]
  · simp [producers, getElem?_addProducer, h, Ne.symm h]

theorem Inhabited.empty : Inhabited ∅ := by
  intro output producers h
  simp at h

theorem Inhabited.addProducer {table : OutputTable} (h : table.Inhabited) (output producer : String) :
    (table.addProducer output producer).Inhabited := by
  intro other producers hother
  rw [getElem?_addProducer] at hother
  split at hother
  · obtain rfl := Option.some.inj hother
    exact ⟨producer, Std.ExtTreeSet.mem_insert_self⟩
  · exact h other producers hother

-- What such a table holds for an output is given by its producers.
theorem Inhabited.getElem?_eq_some_iff {table : OutputTable} (h : table.Inhabited) (output : String)
    (producers : NameSet) :
    table[output]? = some producers ↔
      (∃ name, name ∈ producers) ∧ ∀ name, name ∈ producers ↔ name ∈ table.producers output := by
  constructor
  · intro hfound
    refine ⟨h output producers hfound, fun name => ?_⟩
    rw [OutputTable.producers, hfound, Option.getD_some]
  · rintro ⟨⟨name, hname⟩, hmem⟩
    have hsame : producers = table.producers output := Std.ExtTreeSet.ext_mem hmem
    rw [hsame, OutputTable.producers] at hname ⊢
    cases hfound : table[output]? with
    | none => simp [hfound] at hname
    | some found => rfl

end OutputTable

namespace Graph

-- What one feedstock adds to the table when its outputs are entered.
def declare (graph : Graph) (table : OutputTable) (name : String) : OutputTable :=
  match graph.payload? name with
  | some feedstock =>
    feedstock.outputs.toList.foldl (fun table output => table.addProducer output name) table
  | none => table

theorem declaredOutputs_eq_foldl (graph : Graph) :
    graph.declaredOutputs = graph.names.foldl graph.declare ∅ := rfl

def Declares (graph : Graph) (name output : String) : Prop :=
  ∃ feedstock, graph.payload? name = some feedstock ∧ output ∈ feedstock.outputs

theorem mem_producers_declare (graph : Graph) (table : OutputTable) (name output producer : String) :
    producer ∈ (graph.declare table name).producers output ↔
      producer ∈ table.producers output ∨ graph.Declares name output ∧ producer = name := by
  unfold declare Declares
  cases graph.payload? name with
  | none => simp
  | some feedstock =>
      rw [foldl_adds_iff
        (fun (table : OutputTable) (entry : String × String) => entry.2 ∈ table.producers entry.1)
        _ (fun output entry => entry.1 = output ∧ entry.2 = name)
        (fun table output entry => table.mem_producers_addProducer output name entry.1 entry.2)
        feedstock.outputs.toList table (output, producer)]
      simp

theorem inhabited_declare (graph : Graph) {table : OutputTable} (h : table.Inhabited)
    (name : String) : (graph.declare table name).Inhabited := by
  unfold declare
  cases graph.payload? name with
  | none => exact h
  | some feedstock =>
      exact List.foldlRecOn _ _ h fun table htable output _ => htable.addProducer output name

theorem mem_producers_declaredOutputs (graph : Graph) (output name : String) :
    name ∈ graph.declaredOutputs.producers output ↔ graph.Declares name output := by
  rw [declaredOutputs_eq_foldl, foldl_adds_iff
    (fun (table : OutputTable) (entry : String × String) => entry.2 ∈ table.producers entry.1)
    graph.declare (fun name entry => graph.Declares name entry.1 ∧ entry.2 = name)
    (fun table name entry => graph.mem_producers_declare table name entry.1 entry.2)
    graph.names ∅ (output, name)]
  constructor
  · rintro (hempty | ⟨_, -, hdeclares, rfl⟩)
    · simp [OutputTable.producers] at hempty
    · exact hdeclares
  · rintro ⟨feedstock, hpayload, houtput⟩
    exact .inr ⟨name, mem_names_of_payload? hpayload, ⟨feedstock, hpayload, houtput⟩, rfl⟩

-- The declared table lists the outputs that some feedstock declares, each with those that do.
theorem getElem?_declaredOutputs_eq_some_iff (graph : Graph) (output : String) (producers : NameSet) :
    graph.declaredOutputs[output]? = some producers ↔
      (∃ name, name ∈ producers) ∧ ∀ name, name ∈ producers ↔ graph.Declares name output := by
  have hinhabited : graph.declaredOutputs.Inhabited :=
    List.foldlRecOn _ _ .empty fun table htable name _ => graph.inhabited_declare htable name
  rw [hinhabited.getElem?_eq_some_iff]
  simp only [mem_producers_declaredOutputs]

end Graph

end Rollout
