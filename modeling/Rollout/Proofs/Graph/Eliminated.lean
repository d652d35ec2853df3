import Rollout.Proofs.Graph.Elimination

namespace Rollout

section Ways

variable {step : String → String → Prop} {inner : String → Prop} {source target : String}

-- Written out, a way is a chain of steps with nothing but inner names between its ends.
theorem via_iff_exists_chain :
    Via step inner source target ↔
      ∃ between : List String, (source :: (between ++ [target])).IsChain step ∧
        ∀ name ∈ between, inner name := by
  constructor
  · intro hway
    induction hway with
    | single h => exact ⟨[], List.isChain_pair.mpr h, fun _ => nofun⟩
    | @tail last target _ hi h ih =>
        obtain ⟨between, hchain, hbetween⟩ := ih
        refine ⟨between ++ [last], ?_, fun name hname => ?_⟩
        · rw [List.append_assoc]
          exact List.isChain_cons_append_cons_cons.mpr ⟨hchain, h, List.isChain_singleton target⟩
        · rcases List.mem_append.mp hname with hm | hm
          · exact hbetween name hm
          · exact List.mem_singleton.mp hm ▸ hi
  · rintro ⟨between, hchain, hbetween⟩
    induction between using List.reverseRecOn generalizing target with
    | nil => exact .single (List.isChain_pair.mp hchain)
    | append_singleton between last ih =>
        rw [List.append_assoc] at hchain
        obtain ⟨hbefore, h, -⟩ := List.isChain_cons_append_cons_cons.mp hchain
        refine .tail (ih hbefore fun name hm => hbetween name ?_) (hbetween last ?_) h
        · exact List.mem_append_left _ hm
        · exact List.mem_append_right _ (List.mem_singleton_self last)

theorem Via.transGen (hway : Via step inner source target) : Relation.TransGen step source target := by
  induction hway with
  | single h => exact .single h
  | tail _ _ h ih => exact ih.tail h

-- Going on from a name that stays, one is always on a way from the last such name.
theorem exists_via_of_transGen (hs : ¬ inner source) (hway : Relation.TransGen step source target) :
    ∃ last, ¬ inner last ∧ Via step inner last target ∧
      Relation.ReflTransGen (fun a b => ¬ inner a ∧ ¬ inner b ∧ Via step inner a b) source last := by
  induction hway with
  | single h => exact ⟨source, hs, .single h, .refl⟩
  | @tail between target _ h ih =>
      obtain ⟨last, hlast, hvia, hstays⟩ := ih
      by_cases hb : inner between
      · exact ⟨last, hlast, .tail hvia hb h, hstays⟩
      · exact ⟨between, hb, .single h, hstays.tail ⟨hlast, hb, hvia⟩⟩

theorem transGen_via_iff (hs : ¬ inner source) (ht : ¬ inner target) :
    Relation.TransGen (fun a b => ¬ inner a ∧ ¬ inner b ∧ Via step inner a b) source target ↔
      Relation.TransGen step source target := by
  constructor
  · intro hway
    induction hway with
    | single h => exact h.2.2.transGen
    | tail _ h ih => exact (ih h.1).trans h.2.2.transGen
  · intro hway
    obtain ⟨last, hlast, hvia, hstays⟩ := exists_via_of_transGen hs hway
    exact Relation.TransGen.tail' hstays ⟨hlast, ht, hvia⟩

end Ways

namespace Graph

-- Nothing tells apart two graphs that agree on names, payloads, edges and outputs.
theorem eq_of_parts {graph other : Graph} (hname : ∀ name, name ∈ graph.names ↔ name ∈ other.names)
    (hpayload : ∀ name, graph.payload? name = other.payload? name)
    (hedge : ∀ source target, graph.Edge source target ↔ other.Edge source target)
    (houtputs : graph.outputs = other.outputs) : graph = other := by
  have hdependencies : ∀ name, graph.dependencies name = other.dependencies name :=
    fun name => Std.ExtTreeSet.ext_mem fun source => hedge source name
  have hdependents : ∀ name, graph.dependents name = other.dependents name := by
    refine fun name => Std.ExtTreeSet.ext_mem fun target => ?_
    rw [mem_dependents_iff_edge, mem_dependents_iff_edge, hedge]
  have hkey : ∀ name, name ∈ graph.vertices.payloads ↔ name ∈ other.vertices.payloads := by
    simpa only [mem_names_iff] using hname
  have hpayloads : graph.vertices.payloads = other.vertices.payloads := by
    refine Std.ExtTreeMap.ext_getElem? fun name => ?_
    have hin := hkey name
    have hp := hpayload name
    rw [Std.ExtTreeMap.mem_iff_isSome_getElem?, Std.ExtTreeMap.mem_iff_isSome_getElem?] at hin
    rw [payload?, payload?] at hp
    cases hg : graph.vertices.payloads[name]? <;> cases ho : other.vertices.payloads[name]? <;> simp_all
  have hupstream : graph.vertices.upstream = other.vertices.upstream :=
    Adjacency.eq_of_neighbours
      (fun name => by rw [graph.coherent.upstream, other.coherent.upstream, hkey]) hdependencies
  have hdownstream : graph.vertices.downstream = other.vertices.downstream :=
    Adjacency.eq_of_neighbours
      (fun name => by rw [graph.coherent.downstream, other.coherent.downstream, hkey]) hdependents
  obtain ⟨⟨_, _, _⟩, _, _⟩ := graph
  obtain ⟨⟨_, _, _⟩, _, _⟩ := other
  cases hpayloads
  cases hupstream
  cases hdownstream
  cases houtputs
  rfl

-- What is left of a graph when some names are gone. A path of at least one edge that runs through
-- nothing but names that are gone has become an edge.
structure Eliminated (graph : Graph) (gone : String → Prop) (rest : Graph) : Prop where
  name : ∀ n, n ∈ rest.names ↔ n ∈ graph.names ∧ ¬ gone n
  payload : ∀ n ∈ rest.names, rest.payload? n = graph.payload? n
  edge : ∀ a b, rest.Edge a b ↔ ¬ gone a ∧ ¬ gone b ∧
    ∃ between : List String, (a :: (between ++ [b])).IsChain graph.Edge ∧ ∀ n ∈ between, gone n
  outputs : rest.outputs = graph.outputs

theorem Eliminated.eq {graph rest other : Graph} {gone : String → Prop}
    (h : graph.Eliminated gone rest) (ho : graph.Eliminated gone other) : rest = other := by
  have hname : ∀ n, n ∈ rest.names ↔ n ∈ other.names := fun n => (h.name n).trans (ho.name n).symm
  refine eq_of_parts hname (fun n => ?_) (fun a b => (h.edge a b).trans (ho.edge a b).symm)
    (h.outputs.trans ho.outputs.symm)
  by_cases hn : n ∈ rest.names
  · rw [h.payload n hn, ho.payload n ((hname n).mp hn)]
  · rw [payload?_eq_none_of_not_mem hn, payload?_eq_none_of_not_mem fun hm => hn ((hname n).mpr hm)]

theorem Eliminated.transGen_iff {graph rest : Graph} {gone : String → Prop}
    (h : graph.Eliminated gone rest) {a b : String} (ha : ¬ gone a) (hb : ¬ gone b) :
    Relation.TransGen rest.Edge a b ↔ Relation.TransGen graph.Edge a b := by
  have hedge : rest.Edge = fun a b => ¬ gone a ∧ ¬ gone b ∧ Via graph.Edge gone a b := by
    funext a b
    rw [eq_iff_iff, h.edge, via_iff_exists_chain]
  rw [hedge, transGen_via_iff ha hb]

theorem outputs_pluck (graph : Graph) (name : String) : (graph.pluck name).outputs = graph.outputs :=
  pluck_induction (motive := fun rest => rest.outputs = graph.outputs) graph name (fun _ => rfl) rfl
    fun _ _ _ _ _ _ _ hrest => hrest

theorem outputs_pluckAll (names : List String) (graph : Graph) :
    (graph.pluckAll names).outputs = graph.outputs :=
  List.foldlRecOn names pluck (motive := fun rest : Graph => rest.outputs = graph.outputs) rfl
    fun rest hrest name _ => (rest.outputs_pluck name).trans hrest

theorem outputs_removeLoops (graph : Graph) : graph.removeLoops.outputs = graph.outputs :=
  List.foldlRecOn _ _ (motive := fun rest : Graph => rest.outputs = graph.outputs) rfl
    fun _ hrest _ _ => hrest

theorem eliminated_pluckAll (graph : Graph) (names : List String) :
    graph.Eliminated (· ∈ names) (graph.pluckAll names) where
  name := mem_names_pluckAll names graph
  payload n hn := payload?_pluckAll names graph ((mem_names_pluckAll names graph n).mp hn).2
  edge a b := by rw [edge_pluckAll, via_iff_exists_chain]
  outputs := outputs_pluckAll names graph

theorem pluckAll_eq_of_mem_iff (graph : Graph) {names others : List String}
    (h : ∀ n, n ∈ others ↔ n ∈ names) : graph.pluckAll others = graph.pluckAll names := by
  have hsame : (· ∈ others) = (· ∈ names) := funext fun n => propext (h n)
  exact (hsame ▸ graph.eliminated_pluckAll others).eq (graph.eliminated_pluckAll names)

theorem mem_idleNames_iff (graph : Graph) (ignored : NameSet) (n : String) :
    n ∈ graph.names.filter (graph.isIdle ignored) ↔ n ∈ graph.names ∧
      ∀ feedstock, graph.payload? n = some feedstock →
        isStubby n = true ∨ n ∈ ignored ∨ feedstock.allNoarch = true := by
  rw [List.mem_filter]
  refine and_congr_right fun _ => ?_
  rw [← not_iff_not, Bool.not_eq_true, isIdle_eq_false_iff]
  simp

-- Plucking names leaves the paths through them as edges, and all else as it was. So their order does
-- not matter, nor that some come twice or are in no graph, and what depended on what still does.
-- Dropping what is idle is plucking it, and then dropping the loops.
theorem plucking_eliminates (graph : Graph) (names : List String) (ignored : NameSet) :
    graph.Eliminated (· ∈ names) (graph.pluckAll names) ∧
    (∀ others, (∀ n, n ∈ others ↔ n ∈ names) → graph.pluckAll others = graph.pluckAll names) ∧
    (∀ a b, a ∉ names → b ∉ names →
      (Relation.TransGen (graph.pluckAll names).Edge a b ↔ Relation.TransGen graph.Edge a b)) ∧
    ∀ idle : List String, (∀ n, n ∈ idle ↔ n ∈ graph.names ∧
        ∀ feedstock, graph.payload? n = some feedstock →
          isStubby n = true ∨ n ∈ ignored ∨ feedstock.allNoarch = true) →
      graph.dropIdle ignored = (graph.pluckAll idle).removeLoops ∧
        ∀ a b, (graph.dropIdle ignored).Edge a b ↔ (graph.pluckAll idle).Edge a b ∧ a ≠ b := by
  refine ⟨graph.eliminated_pluckAll names, fun others h => graph.pluckAll_eq_of_mem_iff h,
    fun a b ha hb => (graph.eliminated_pluckAll names).transGen_iff ha hb, fun idle hidle => ?_⟩
  have hdrop : graph.dropIdle ignored = (graph.pluckAll idle).removeLoops := by
    rw [dropIdle, graph.pluckAll_eq_of_mem_iff fun n =>
      (graph.mem_idleNames_iff ignored n).trans (hidle n).symm]
  exact ⟨hdrop, fun a b => by rw [hdrop, edge_removeLoops]⟩

-- Nothing is known of `b` and `c`, which lie on a cycle between `a` and `d`.
def relay : Graph :=
  ((((((empty.add "a" (.named "a")).add "d" (.named "d")).connect "a" "b").connect "b" "c").connect
    "c" "b").connect "c" "d").connect "d" "b"

theorem plucking_eliminates_relay :
    relay.pluckAll ["c", "ghost", "b", "c"] = relay.pluckAll ["b", "c", "ghost"] ∧
      Relation.TransGen (relay.pluckAll ["b", "c", "ghost"]).Edge "d" "d" ∧
      (relay.dropIdle ∅).Edge "a" "d" ∧ ¬ (relay.dropIdle ∅).Edge "d" "d" := by
  obtain ⟨-, horder, hreach, hidle⟩ := plucking_eliminates relay ["b", "c", "ghost"] ∅
  have hnames : relay.names.filter (relay.isIdle ∅) = ["b", "c"] := by decide
  obtain ⟨-, hedge⟩ := hidle ["b", "c"] fun n => by rw [← hnames, mem_idleNames_iff]
  refine ⟨horder _ fun n => ?_, ?_, ?_, ?_⟩
  · simp only [List.mem_cons, List.not_mem_nil, or_false]
    tauto
  · refine (hreach "d" "d" (by decide) (by decide)).mpr ?_
    have hback : relay.Edge "d" "b" ∧ relay.Edge "b" "c" ∧ relay.Edge "c" "d" := by decide
    exact ((Relation.TransGen.single hback.1).tail hback.2.1).tail hback.2.2
  · exact (hedge "a" "d").mpr (by decide)
  · exact fun he => ((hedge "d" "d").mp he).2 rfl

end Graph

end Rollout
