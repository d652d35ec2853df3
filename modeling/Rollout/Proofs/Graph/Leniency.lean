import Rollout.Json.Writer
import Rollout.Proofs.Feedstock.Loose
import Rollout.Proofs.Graph.Snapshot

namespace Rollout

namespace Feedstock

theorem outputs_put (feedstock : Feedstock) (value : Json) (place : Loose) :
    (feedstock.put value place).outputs = feedstock.outputs := by
  cases place <;> rfl

theorem Replaced.ne_null {new value changed : Json} {place : Loose}
    (h : Replaced new place value changed) : value ≠ .null ∧ changed ≠ .null := by
  cases h with
  | archived h => exact h.ne_null
  | parsingError h => exact h.ne_null
  | standing _ h => exact h.ne_null
  | hosting _ _ _ h => exact h.ne_null

end Feedstock

namespace Graph

-- A snapshot's document before and after the value at such a place of a feedstock is replaced, with
-- the names of the feedstocks that are listed after it.
inductive Snapshot.Replaced (new : Json) (place : Feedstock.Loose) (name : String) :
    List String → Json → Json → Prop where
  | intro {before after : List (String × Json)} {old changedOld document changed : Json}
      (hfeedstock : Feedstock.Replaced new place old changedOld)
      (h : Json.Replaced Snapshot.fields ["nodes"] (.object (before ++ (name, old) :: after))
        (.object (before ++ (name, changedOld) :: after)) document changed) :
      Replaced new place name (after.map Prod.fst) document changed

-- The graphs before and after differ in what they know of this feedstock, and there in what the value
-- says. Of a feedstock that is listed again later they differ in nothing.
structure Contained (new : Json) (place : Feedstock.Loose) (name : String) (later : List String)
    (before after : Graph) : Prop where
  names : after.names = before.names
  edge : ∀ a b, after.Edge a b ↔ before.Edge a b
  outputs : after.outputs = before.outputs
  others : ∀ n, n ≠ name ∨ name ∈ later → after.payload? n = before.payload? n
  payload : name ∉ later → ∃ feedstock, before.payload? name = some feedstock ∧
    after.payload? name = some (feedstock.put new place)
  -- unless the state is clearly a settled one, the pull request counts as open
  state : ∀ index, place = .hosting index .state → name ∉ later →
    ∃ feedstock attempt, after.payload? name = some feedstock ∧
      feedstock.attempts[index]? = some attempt ∧
      (attempt.isOpen = true ↔ new.canonical ∉ PullState.settledForms)
  createdAt : ∀ index, place = .hosting index .createdAt → name ∉ later →
    ∃ feedstock attempt, after.payload? name = some feedstock ∧
      feedstock.attempts[index]? = some attempt ∧
      (attempt.createdAt? = none ↔ ∀ text, new = .string text → Instant.ofText? text = none)

namespace Snapshot

-- The names that a snapshot lists and the outputs that they declare are all that the rest of its graph
-- goes by.
theorem graph_alike {snapshot other : Snapshot}
    (hnodes : ∀ n : String, (other.nodes[n]?).map (Option.map Feedstock.outputs) =
      (snapshot.nodes[n]?).map (Option.map Feedstock.outputs))
    (hedges : other.edges = snapshot.edges) (houtputs : other.outputs = snapshot.outputs) :
    other.graph.names = snapshot.graph.names ∧
      (∀ a b, other.graph.Edge a b ↔ snapshot.graph.Edge a b) ∧
      other.graph.outputs = snapshot.graph.outputs := by
  have hname : ∀ n, n ∈ other.graph.names ↔ n ∈ snapshot.graph.names := by
    intro n
    have hlisted := congrArg Option.isSome (hnodes n)
    rw [Option.isSome_map, Option.isSome_map] at hlisted
    rw [mem_names_graph, mem_names_graph, hedges, Std.ExtTreeMap.mem_iff_isSome_getElem?, hlisted,
      ← Std.ExtTreeMap.mem_iff_isSome_getElem?]
  have hpayload : ∀ n, (other.graph.payload? n).map Feedstock.outputs =
      (snapshot.graph.payload? n).map Feedstock.outputs := by
    intro n
    rw [payload?_graph, payload?_graph, ← Option.join_map_eq_map_join, ← Option.join_map_eq_map_join,
      hnodes n]
  have hdeclared : other.bare.declaredOutputs = snapshot.bare.declaredOutputs :=
    declaredOutputs_eq hname hpayload
  refine ⟨other.graph.pairwise_names.eq_of_mem_iff snapshot.graph.pairwise_names hname,
    fun a b => ?_, ?_⟩
  · rw [edge_graph, edge_graph, hedges]
  · change (if other.outputs.isEmpty then other.bare.declaredOutputs else other.outputs) =
      if snapshot.outputs.isEmpty then snapshot.bare.declaredOutputs else snapshot.outputs
    rw [houtputs, hdeclared]

theorem contained {snapshot : Snapshot} {nodes : NameMap (Option Feedstock)} {new : Json}
    {place : Feedstock.Loose} {name : String} {later : List String} {feedstock : Feedstock}
    (hlisted : name ∉ later → snapshot.nodes[name]? = some (some feedstock))
    (hnodes : ∀ n : String, nodes[n]? =
      if n = name ∧ name ∉ later then some (some (feedstock.put new place)) else snapshot.nodes[n]?)
    (hrecord : ∀ index field, place = .hosting index field → ∃ (attempt : Attempt) (hosting : Hosting),
      (feedstock.put new place).attempts[index]? = some attempt ∧
        attempt.hosting = some (hosting.put new field)) :
    Contained new place name later snapshot.graph { snapshot with nodes := nodes }.graph := by
  have hshape : ∀ n : String, (nodes[n]?).map (Option.map Feedstock.outputs) =
      (snapshot.nodes[n]?).map (Option.map Feedstock.outputs) := by
    intro n
    rw [hnodes n]
    split
    · rename_i hn
      rw [hn.1, hlisted hn.2]
      simp [Feedstock.outputs_put]
    · rfl
  have htold : name ∉ later →
      { snapshot with nodes := nodes }.graph.payload? name = some (feedstock.put new place) := by
    intro hlater
    rw [payload?_graph, hnodes, if_pos ⟨rfl, hlater⟩, Option.join_some]
  obtain ⟨hnames, hedge, houtputs⟩ := @graph_alike snapshot { snapshot with nodes := nodes } hshape rfl rfl
  refine ⟨hnames, hedge, houtputs, ?_, ?_, ?_, ?_⟩
  · intro n hn
    rw [payload?_graph, payload?_graph, hnodes, if_neg]
    tauto
  · intro hlater
    refine ⟨feedstock, ?_, htold hlater⟩
    rw [payload?_graph, hlisted hlater, Option.join_some]
  · intro index hplace hlater
    obtain ⟨attempt, hosting, hattempt, hhosting⟩ := hrecord index .state hplace
    exact ⟨_, attempt, htold hlater, hattempt, attempt.isOpen_of_state new hhosting⟩
  · intro index hplace hlater
    obtain ⟨attempt, hosting, hattempt, hhosting⟩ := hrecord index .createdAt hplace
    exact ⟨_, attempt, htold hlater, hattempt, attempt.createdAt?_eq_none_iff new hhosting⟩

end Snapshot

-- Whatever takes the place of a value that may be of any kind, the snapshot can still be read, and the
-- change does not reach beyond that value.
theorem loose_values_contained {document changed new : Json} {place : Feedstock.Loose} {name : String}
    {later : List String} {snapshot : Snapshot} (hread : Snapshot.ofJson? document = some snapshot)
    (h : Snapshot.Replaced new place name later document changed) :
    ∃ other, Snapshot.ofJson? changed = some other ∧
      (∀ text, Json.ofText? text = some changed → ofText text = .ok other.graph) ∧
      Contained new place name later snapshot.graph other.graph := by
  cases h with
  | @intro before after old changedOld _ _ hfeedstock h =>
      obtain ⟨hold, hnew⟩ := Snapshot.ofJson?_replaced_nodes h hread
      obtain ⟨payload, hpayload, hlisted, hchange⟩ := Snapshot.nameMap?_replaced hold
      rw [Json.nullable?_of_ne_null hfeedstock.ne_null.1] at hpayload
      obtain ⟨feedstock, hfound, rfl⟩ := Option.map_eq_some_iff.mp hpayload
      have hput : Json.nullable? Feedstock.ofJson? changedOld = some (some (feedstock.put new place)) := by
        rw [Json.nullable?_of_ne_null hfeedstock.ne_null.2,
          Feedstock.ofJson?_replaced hfeedstock hfound, Option.map_some]
      obtain ⟨nodes, hnodes, hlookup⟩ := hchange _ _ hput
      have hchanged := hnew nodes hnodes
      refine ⟨_, hchanged, fun text htext => (Snapshot.Holds.entire htext).ofText_eq hchanged,
        Snapshot.contained hlisted hlookup ?_⟩
      rintro index field rfl
      exact Feedstock.exists_record_of_replaced hfeedstock hfound

-- A snapshot of two feedstocks, the second with a pull request in this state.
def requested (state : Json) : Json :=
  .object [("nodes", .object [("a", .object []), ("c", .object [("pr_info", .object [("PRed", .array
      [.object [("data", .object []), ("PR", .object [("state", state)])]])])])]),
    ("edges", .array [.array [.string "a", .string "c"]])]

theorem replaced_requested (old new : Json) :
    Snapshot.Replaced new (.hosting 0 .state) "c" [] (requested old) (requested new) := by
  refine @Snapshot.Replaced.intro new _ "c" [("a", .object [])] [] _ _ _ _ ?_
    (@Json.Replaced.member _ _ _ _ [] [_] "nodes" (by decide))
  exact @Feedstock.Replaced.hosting new .state [] [] old _ _ _ _ _ _ _ _
    (@Json.Replaced.member _ _ _ _ [] [] "state" (by decide))
    (@Json.Replaced.member _ _ _ _ [("data", .object [])] [] "PR" (by decide))
    (@Json.Replaced.member _ _ _ _ [] [] "PRed" (by decide))
    (@Json.Replaced.member _ _ _ _ [] [] "pr_info" (by decide))

theorem loose_values_contained_requested :
    (Snapshot.ofJson? (requested (.string "merged"))).isSome = true ∧
      ∃ graph feedstock attempt, ofText (requested (.number (.int 1))).compact = .ok graph ∧
        graph.payload? "c" = some feedstock ∧ feedstock.attempts[0]? = some attempt ∧
        attempt.isOpen = true := by
  have hread : (Snapshot.ofJson? (requested (.string "merged"))).isSome = true := by decide +kernel
  have htext : Json.ofText? (requested (.number (.int 1))).compact =
      some (requested (.number (.int 1))) := by decide +kernel
  obtain ⟨snapshot, hsnapshot⟩ := Option.isSome_iff_exists.mp hread
  obtain ⟨other, -, hloaded, hcontained⟩ :=
    loose_values_contained hsnapshot (replaced_requested _ (.number (.int 1)))
  obtain ⟨feedstock, attempt, hfeedstock, hattempt, hopen⟩ := hcontained.state 0 rfl List.not_mem_nil
  exact ⟨hread, other.graph, feedstock, attempt, hloaded _ htext, hfeedstock, hattempt,
    hopen.mpr (by decide)⟩

end Graph

end Rollout
