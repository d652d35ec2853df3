import Rollout.Graph.Snapshot
import Rollout.Proofs.Feedstock.Shape
import Rollout.Proofs.Graph.Alike
import Rollout.Proofs.Graph.Elimination
import Rollout.Proofs.Json.Replaced

namespace Rollout

namespace NameMap

variable {α : Type}

theorem getElem?_insertMany (entries : List (String × α)) (map : NameMap α) (name : String) :
    (map.insertMany entries)[name]? = (entries.reverse.lookup name).or map[name]? := by
  induction entries generalizing map with
  | nil => simp
  | cons entry rest ih =>
      obtain ⟨key, value⟩ := entry
      rw [Std.ExtTreeMap.insertMany_cons, ih, List.reverse_cons, List.lookup_append, Option.or_assoc,
        Std.ExtTreeMap.getElem?_insert]
      congr 1
      by_cases hname : key = name
      · simp [hname]
      · have hcompare : ¬ compare key name = .eq := by simpa [Std.compare_eq_iff_eq] using hname
        simp [List.lookup_cons, hcompare, beq_false_of_ne (Ne.symm hname)]

-- Of the entries under one name a table keeps the last.
theorem getElem?_ofList (entries : List (String × α)) (name : String) :
    (Std.ExtTreeMap.ofList entries compare)[name]? = entries.reverse.lookup name := by
  rw [Std.ExtTreeMap.ofList_eq_insertMany_empty, getElem?_insertMany]
  simp

theorem lookup_reverse_eq_none_iff (entries : List (String × α)) (name : String) :
    entries.reverse.lookup name = none ↔ name ∉ entries.map Prod.fst := by
  simp only [List.lookup_eq_none_iff, List.mem_reverse, bne_iff_ne, List.mem_map, not_exists, not_and]
  exact ⟨fun h entry hm he => h entry hm he.symm, fun h entry hm he => h entry hm he.symm⟩

-- An entry that is replaced shows in the table unless a later one has its name.
theorem getElem?_ofList_replaced (front back : List (String × α)) (name n : String) (old new : α) :
    (Std.ExtTreeMap.ofList (front ++ (name, new) :: back) compare)[n]? =
      if n = name ∧ name ∉ back.map Prod.fst then some new
      else (Std.ExtTreeMap.ofList (front ++ (name, old) :: back) compare)[n]? := by
  simp only [getElem?_ofList, List.reverse_append, List.reverse_cons, List.lookup_append,
    List.append_assoc]
  by_cases hn : n = name
  · subst hn
    cases hlater : back.reverse.lookup n with
    | none => simp [(lookup_reverse_eq_none_iff back n).mp hlater]
    | some value =>
        have hlisted : n ∈ back.map Prod.fst := by
          rw [← not_not (a := n ∈ _), ← lookup_reverse_eq_none_iff, hlater]
          exact nofun
        simp [hlisted]
  · simp [hn, List.lookup_cons, beq_false_of_ne hn]

end NameMap

namespace Graph

-- The output table that a graph's feedstocks declare asks for nothing but their names and outputs.
theorem declaredOutputs_eq {graph other : Graph} (hname : ∀ n, n ∈ graph.names ↔ n ∈ other.names)
    (houtputs : ∀ n, (graph.payload? n).map Feedstock.outputs = (other.payload? n).map Feedstock.outputs) :
    graph.declaredOutputs = other.declaredOutputs := by
  have hnames : graph.names = other.names :=
    graph.pairwise_names.eq_of_mem_iff other.pairwise_names hname
  rw [declaredOutputs, declaredOutputs, hnames]
  refine List.foldl_ext _ _ _ fun table name _ => ?_
  have hsame := houtputs name
  cases hold : graph.payload? name with
  | none => simp_all
  | some feedstock =>
      rw [hold] at hsame
      obtain ⟨found, hnew, hfound⟩ := Option.map_eq_some_iff.mp hsame.symm
      simp only [hnew, hfound]

namespace Snapshot

variable (snapshot : Snapshot)

-- The graph of a snapshot before it gets its output table.
def bare : Graph := build snapshot.nodes.toList snapshot.edges

theorem mem_names_graph (n : String) :
    n ∈ snapshot.graph.names ↔ n ∈ snapshot.nodes ∨ ∃ edge ∈ snapshot.edges, n = edge.1 ∨ n = edge.2 := by
  refine (mem_names_build _ _ n).trans ?_
  rw [Std.ExtTreeMap.map_fst_toList_eq_keys, Std.ExtTreeMap.mem_keys]

theorem payload?_graph (n : String) : snapshot.graph.payload? n = (snapshot.nodes[n]?).join := by
  refine (payload?_build _ _ (snapshot.nodes[n]?).join ?_).trans ?_
  · rintro ⟨name, payload⟩ hnode rfl
    rw [Std.ExtTreeMap.mem_toList_iff_getElem?_eq_some.mp hnode, Option.join_some]
  · rw [Std.ExtTreeMap.map_fst_toList_eq_keys]
    refine ite_eq_left_iff.mpr fun hn => ?_
    rw [Std.ExtTreeMap.getElem?_eq_none (mt Std.ExtTreeMap.mem_keys.mpr hn), Option.join_none]

theorem edge_graph (a b : String) : snapshot.graph.Edge a b ↔ (a, b) ∈ snapshot.edges := edge_build _ _ a b

section Read

variable {α : Type} {decode : Json → Option α}

theorem map_fst_of_mapM {members : List (String × Json)} {found : List (String × α)}
    (h : (members.mapM fun member => (decode member.2).map fun value => (member.1, value)) = some found) :
    found.map Prod.fst = members.map Prod.fst := by
  rw [Json.mapM_eq_some_iff_forall₂] at h
  induction h with
  | nil => rfl
  | cons hmember _ ih =>
      obtain ⟨value, -, rfl⟩ := Option.map_eq_some_iff.mp hmember
      rw [List.map_cons, List.map_cons, ih]

theorem nameMap?_replaced {before after : List (String × Json)} {name : String} {old : Json}
    {map : NameMap α} (h : nameMap? decode (.object (before ++ (name, old) :: after)) = some map) :
    ∃ a, decode old = some a ∧ (name ∉ after.map Prod.fst → map[name]? = some a) ∧
      ∀ new b, decode new = some b → ∃ changed,
        nameMap? decode (.object (before ++ (name, new) :: after)) = some changed ∧
        ∀ n, changed[n]? = if n = name ∧ name ∉ after.map Prod.fst then some b else map[n]? := by
  obtain ⟨found, hfound, rfl⟩ := Option.map_eq_some_iff.mp h
  obtain ⟨front, entry, back, rfl, -, hentry, hback, hnew⟩ := Json.exists_of_mapM_append_cons hfound
  obtain ⟨a, ha, rfl⟩ := Option.map_eq_some_iff.mp hentry
  rw [← map_fst_of_mapM hback]
  refine ⟨a, ha, fun hlater => ?_, fun new b hb => ?_⟩
  · rw [NameMap.getElem?_ofList_replaced front back name name a a, if_pos ⟨rfl, hlater⟩]
  · have hchanged := hnew (name, new) (name, b) (by rw [hb, Option.map_some])
    exact ⟨_, congrArg (Option.map _) hchanged, fun n =>
      NameMap.getElem?_ofList_replaced front back name n a b⟩

theorem disjoint_fields : fields.Pairwise List.Disjoint := by
  simp [fields]

theorem ofJson?_replaced_nodes {old new document changed : Json} {snapshot : Snapshot}
    (h : Json.Replaced fields ["nodes"] old new document changed)
    (hread : ofJson? document = some snapshot) :
    nameMap? (Json.nullable? Feedstock.ofJson?) old = some snapshot.nodes ∧
      ∀ nodes, nameMap? (Json.nullable? Feedstock.ofJson?) new = some nodes →
        ofJson? changed = some { snapshot with nodes := nodes } := by
  obtain ⟨given, hgiven, hfields⟩ := Option.bind_eq_some_iff.mp hread
  obtain ⟨hold, hchanged⟩ := Json.record?_replaced (by decide) disjoint_fields h hgiven
  split at hfields
  · rename_i nodes edges outputs
    obtain rfl := Option.some.inj hold
    simp only [Option.bind_eq_bind, Option.bind_eq_some_iff, Option.pure_def,
      Option.some.injEq] at hfields
    obtain ⟨known, hnodes, _, hedges, _, houtputs, rfl⟩ := hfields
    refine ⟨hnodes, fun nodes hnew => ?_⟩
    replace hchanged : changed.record? fields = some [some new, edges, outputs] := hchanged
    replace hnew : Json.orElse? ∅ (nameMap? (Json.nullable? Feedstock.ofJson?)) (some new) =
      some nodes := hnew
    simp only [ofJson?, hchanged, hnew, hedges, houtputs, Option.bind_eq_bind, Option.bind_some]
    rfl
  · cases hfields

theorem suffices_nameMap? {shape : Json.Shape} (h : shape.Suffices decode) :
    (Json.Shape.table shape).Suffices (nameMap? decode) :=
  fun value => congrArg (Option.map _) (h.entries? value)

end Read

theorem suffices_ofJson? : shape.Suffices ofJson? :=
  Json.Shape.suffices_record (by decide) (fun _ => rfl) fun given hlength =>
    match given, hlength with
    | [nodes, edges, outputs], _ => by
      have hnodes := (suffices_nameMap? Feedstock.suffices_ofJson?.nullable?).orElse? ∅ nodes
      simp [Json.Shape.seenFields, fields, hnodes]

-- A document that a text holds: all of it, or as much of it as is read of a snapshot.
inductive Holds (text : String) (document : Json) : Prop where
  | entire (h : Json.ofText? text = some document)
  | seen (h : shape.ofText? text = some document)

theorem Holds.ofJson?_eq {text : String} {document : Json} (h : Holds text document) :
    (shape.ofText? text).bind ofJson? = ofJson? document := by
  cases h with
  | entire h => rw [shape.ofText?_seen h, Option.bind_some, suffices_ofJson?]
  | seen h => rw [h, Option.bind_some]

theorem Holds.ofText_eq {text : String} {document : Json} {snapshot : Snapshot}
    (h : Holds text document) (hread : ofJson? document = some snapshot) :
    ofText text = .ok snapshot.graph := by
  rw [ofText, h.ofJson?_eq, hread]

end Snapshot

end Graph

end Rollout
