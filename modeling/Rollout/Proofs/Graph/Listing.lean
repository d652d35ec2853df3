import Mathlib.Data.List.Forall2
import Mathlib.Data.Set.List
import Rollout.Proofs.Feedstock.Loose
import Rollout.Proofs.Graph.Eliminated
import Rollout.Proofs.Graph.Outputs
import Rollout.Proofs.Graph.Plain
import Rollout.Proofs.Graph.Snapshot

namespace Rollout

namespace Json

def members? : Json → Option (List (String × Json))
  | .object members => some members
  | _ => none

def items? : Json → Option (List Json)
  | .array items => some items
  | _ => none

-- A list of values that can be written in one way only is read from that way to write it.
theorem list?_eq_some_iff {α : Type} {decode : Json → Option α} {encode : α → Json}
    (h : ∀ item a, decode item = some a ↔ item = encode a) (items : List Json) (found : List α) :
    (array items).list? decode = some found ↔ items = found.map encode := by
  rw [list?, mapM_eq_some_iff_forall₂, ← List.forall₂_eq_eq_eq, List.forall₂_map_right_iff]
  simp only [h]

end Json

namespace Graph

-- What a snapshot's document says under its three fields, entry by entry, as it is written. A
-- field that is left out says nothing.
structure Listing where
  nodes : List (String × Json)
  edges : List Json
  outputs : List (String × Json)

namespace Snapshot

-- Neither the order of the edges nor how often one of them is given shows in the graph.
theorem graph_eq_of_edges (snapshot : Snapshot) {edges : List (String × String)}
    (hsame : ∀ edge, edge ∈ edges ↔ edge ∈ snapshot.edges) :
    { snapshot with edges := edges }.graph = snapshot.graph := by
  have hname : ∀ n, n ∈ { snapshot with edges := edges }.graph.names ↔ n ∈ snapshot.graph.names := by
    intro n
    simp only [mem_names_graph, hsame]
  have hpayload : ∀ n, { snapshot with edges := edges }.graph.payload? n =
      snapshot.graph.payload? n := by
    intro n
    rw [payload?_graph, payload?_graph]
  have hdeclared : { snapshot with edges := edges }.bare.declaredOutputs =
      snapshot.bare.declaredOutputs :=
    declaredOutputs_eq hname fun n => congrArg (Option.map Feedstock.outputs) (hpayload n)
  refine eq_of_parts hname hpayload (fun a b => ?_) ?_
  · rw [edge_graph, edge_graph, hsame]
  · change (if snapshot.outputs.isEmpty then _ else snapshot.outputs) =
      if snapshot.outputs.isEmpty then snapshot.bare.declaredOutputs else snapshot.outputs
    rw [← hdeclared]
    rfl

end Snapshot

namespace Listing

def ofJson? (document : Json) : Option Listing := do
  match ← document.record? Snapshot.fields with
  | [nodes, edges, outputs] =>
    return ⟨← Json.orElse? [] Json.members? nodes, ← Json.orElse? [] Json.items? edges,
      ← Json.orElse? [] Json.members? outputs⟩
  | _ => none

-- The entry of a node; of several under one name the last one counts.
def node? (listing : Listing) (name : String) : Option Json := listing.nodes.reverse.lookup name

def output? (listing : Listing) (output : String) : Option Json :=
  listing.outputs.reverse.lookup output

-- An edge as it is written.
def link (edge : String × String) : Json := .array [.string edge.1, .string edge.2]

def Links (listing : Listing) (source target : String) : Prop := link (source, target) ∈ listing.edges

-- A graph that is what a listing says.
structure Describes (listing : Listing) (graph : Graph) : Prop where
  contains : ∀ name, graph.contains name = true ↔
    name ∈ listing.nodes.map Prod.fst ∨
      ∃ source target, listing.Links source target ∧ (name = source ∨ name = target)
  known : ∀ name, (∃ feedstock, graph.payload? name = some feedstock) ↔
    ∃ value, listing.node? name = some value ∧ value ≠ .null
  payload : ∀ name feedstock, graph.payload? name = some feedstock ↔
    ∃ value, listing.node? name = some value ∧ Feedstock.ofJson? value = some feedstock
  edge : ∀ source target, (source, target) ∈ graph.edges ↔ listing.Links source target
  nodup_edges : graph.edges.Nodup
  dependency : ∀ source target, source ∈ graph.dependencies target ↔ listing.Links source target
  dependent : ∀ source target, target ∈ graph.dependents source ↔ listing.Links source target
  listed : listing.outputs ≠ [] → ∀ output producers, graph.outputs[output]? = some producers ↔
    ∃ items, listing.output? output = some (.array items) ∧
      ∀ name, name ∈ producers ↔ .string name ∈ items
  declared : listing.outputs = [] → ∀ output producers, graph.outputs[output]? = some producers ↔
    (∃ name, name ∈ producers) ∧ ∀ name, name ∈ producers ↔
      ∃ feedstock, graph.payload? name = some feedstock ∧ output ∈ feedstock.outputs

-- The entries of a listing, decoded.
def snapshot? (listing : Listing) : Option Snapshot := do
  return ⟨← Snapshot.nameMap? (Json.nullable? Feedstock.ofJson?) (.object listing.nodes),
    ← (Json.array listing.edges).list? Snapshot.edge?,
    ← Snapshot.nameMap? Json.nameSet? (.object listing.outputs)⟩

section Read

variable {α : Type} {decode : Json → Option α}

theorem nameMap?_members (field : Option Json) :
    Json.orElse? ∅ (Snapshot.nameMap? decode) field =
      (Json.orElse? [] Json.members? field).bind fun members =>
        Snapshot.nameMap? decode (.object members) := by
  rcases field with _ | value
  · rfl
  · cases value <;> rfl

theorem list?_items (field : Option Json) :
    Json.orElse? [] (Json.list? decode) field =
      (Json.orElse? [] Json.items? field).bind fun items => (Json.array items).list? decode := by
  rcases field with _ | value
  · rfl
  · cases value <;> rfl

-- Whether a snapshot is accepted, and as what, is settled by its listing.
theorem snapshot_ofJson?_eq (document : Json) :
    Snapshot.ofJson? document = (ofJson? document).bind snapshot? := by
  unfold Snapshot.ofJson? ofJson?
  cases document.record? Snapshot.fields with
  | none => rfl
  | some given =>
      match given with
      | [nodes, edges, outputs] =>
          simp only [Option.bind_eq_bind, Option.bind_some, nameMap?_members, list?_items]
          cases Json.orElse? [] Json.members? nodes <;> cases Json.orElse? [] Json.items? edges <;>
            cases Json.orElse? [] Json.members? outputs <;> simp [snapshot?]
      | [] | [_] | [_, _] | _ :: _ :: _ :: _ :: _ => rfl

theorem lookup_of_forall₂ {members : List (String × Json)} {found : List (String × α)}
    (h : List.Forall₂ (fun member entry =>
      ((decode member.2).map fun value => (member.1, value)) = some entry) members found)
    (name : String) : found.lookup name = (members.lookup name).bind decode := by
  induction h with
  | nil => rfl
  | @cons member entry members found hentry _ ih =>
      obtain ⟨key, value⟩ := member
      obtain ⟨a, ha, rfl⟩ := Option.map_eq_some_iff.mp hentry
      cases hname : name == key with
      | true => simp only [List.lookup_cons, hname, Option.bind_some, ha]
      | false => simp only [List.lookup_cons, hname, ih]

variable {members : List (String × Json)} {map : NameMap α}
  (h : Snapshot.nameMap? decode (.object members) = some map)
include h

theorem getElem?_nameMap? (name : String) :
    map[name]? = (members.reverse.lookup name).bind decode := by
  obtain ⟨found, hfound, rfl⟩ := Option.map_eq_some_iff.mp h
  have hentries := (Json.mapM_eq_some_iff_forall₂ _ members found).mp hfound
  rw [NameMap.getElem?_ofList]
  exact lookup_of_forall₂ (List.forall₂_reverse_iff.mpr hentries) name

theorem mem_nameMap?_iff (name : String) : name ∈ map ↔ name ∈ members.map Prod.fst := by
  obtain ⟨found, hfound, rfl⟩ := Option.map_eq_some_iff.mp h
  rw [← Snapshot.map_fst_of_mapM hfound, Std.ExtTreeMap.mem_iff_isSome_getElem?,
    NameMap.getElem?_ofList, Option.isSome_iff_ne_none, Ne, NameMap.lookup_reverse_eq_none_iff,
    not_not]

theorem isEmpty_nameMap?_iff : map.isEmpty = true ↔ members = [] := by
  constructor
  · intro hempty
    cases members with
    | nil => rfl
    | cons member members =>
        have hmem : member.1 ∈ map := (mem_nameMap?_iff h member.1).mpr List.mem_cons_self
        rw [Std.ExtTreeMap.isEmpty_iff.mp hempty] at hmem
        exact absurd hmem Std.ExtTreeMap.not_mem_empty
  · rintro rfl
    cases h
    rfl

-- All entries are decoded, so the last one under a name is as well.
theorem isSome_of_nameMap? {name : String} {value : Json}
    (hvalue : members.reverse.lookup name = some value) : ∃ a, decode value = some a := by
  have hmem : name ∈ map := by
    rw [mem_nameMap?_iff h, ← not_not (a := name ∈ _), ← NameMap.lookup_reverse_eq_none_iff, hvalue]
    exact nofun
  rw [Std.ExtTreeMap.mem_iff_isSome_getElem?, getElem?_nameMap? h, hvalue, Option.bind_some] at hmem
  exact Option.isSome_iff_exists.mp hmem

end Read

theorem edge?_eq_some_iff (item : Json) (edge : String × String) :
    Snapshot.edge? item = some edge ↔ item = link edge := by
  constructor
  · intro hitem
    unfold Snapshot.edge? at hitem
    split at hitem
    · cases hitem
      rfl
    · cases hitem
  · rintro rfl
    rfl

theorem string?_eq_some_iff (item : Json) (name : String) :
    Json.string? item = some name ↔ item = .string name := by
  cases item <;> simp [Json.string?]

theorem link_injective : Function.Injective link := by
  rintro ⟨source, target⟩ ⟨first, last⟩ h
  simpa [link] using h

-- A set of names is written as an array of them, in any order and however often each.
theorem mem_of_nameSet? {value : Json} {names : NameSet} (h : value.nameSet? = some names) :
    ∃ items, value = .array items ∧ ∀ name, name ∈ names ↔ .string name ∈ items := by
  obtain ⟨found, hfound, rfl⟩ := Option.map_eq_some_iff.mp h
  cases value with
  | array items =>
      obtain rfl := (Json.list?_eq_some_iff string?_eq_some_iff items found).mp hfound
      refine ⟨_, rfl, fun name => ?_⟩
      rw [NameSet.mem_ofList, List.mem_map_of_injective fun _ _ => Json.string.inj]
  | _ => cases hfound

section Faithful

variable {listing : Listing} {snapshot : Snapshot} (h : listing.snapshot? = some snapshot)
include h

theorem of_snapshot? :
    Snapshot.nameMap? (Json.nullable? Feedstock.ofJson?) (.object listing.nodes) =
        some snapshot.nodes ∧
      listing.edges = snapshot.edges.map link ∧
      Snapshot.nameMap? Json.nameSet? (.object listing.outputs) = some snapshot.outputs := by
  simp only [snapshot?, Option.bind_eq_bind, Option.bind_eq_some_iff, Option.pure_def,
    Option.some.injEq] at h
  obtain ⟨nodes, hnodes, edges, hedges, outputs, houtputs, rfl⟩ := h
  exact ⟨hnodes, (Json.list?_eq_some_iff edge?_eq_some_iff _ _).mp hedges, houtputs⟩

theorem edge_iff_links (source target : String) :
    snapshot.graph.Edge source target ↔ listing.Links source target := by
  rw [Snapshot.edge_graph, Links, (of_snapshot? h).2.1]
  exact (List.mem_map_of_injective link_injective).symm

theorem payload?_eq_of_snapshot? (name : String) :
    snapshot.graph.payload? name = (listing.node? name).bind Feedstock.ofJson? := by
  rw [Snapshot.payload?_graph, getElem?_nameMap? (of_snapshot? h).1]
  change ((listing.node? name).bind (Json.nullable? Feedstock.ofJson?)).join = _
  cases listing.node? name with
  | none => rfl
  | some value =>
      by_cases hnull : value = .null
      · rw [hnull]
        rfl
      · rw [Option.bind_some, Option.bind_some, Json.nullable?_of_ne_null hnull]
        cases Feedstock.ofJson? value <;> rfl

-- What is not null is decoded, or the listing would have been refused.
theorem exists_payload?_iff (name : String) :
    (∃ feedstock, snapshot.graph.payload? name = some feedstock) ↔
      ∃ value, listing.node? name = some value ∧ value ≠ .null := by
  rw [payload?_eq_of_snapshot? h]
  constructor
  · rintro ⟨feedstock, hfeedstock⟩
    obtain ⟨value, hvalue, hread⟩ := Option.bind_eq_some_iff.mp hfeedstock
    refine ⟨value, hvalue, ?_⟩
    rintro rfl
    cases hread
  · rintro ⟨value, hvalue, hnull⟩
    obtain ⟨payload, hpayload⟩ := isSome_of_nameMap? (of_snapshot? h).1 hvalue
    rw [Json.nullable?_of_ne_null hnull] at hpayload
    obtain ⟨feedstock, hread, -⟩ := Option.map_eq_some_iff.mp hpayload
    exact ⟨feedstock, by rw [hvalue, Option.bind_some, hread]⟩

theorem getElem?_outputs_of_listed (hlisted : listing.outputs ≠ []) (output : String)
    (producers : NameSet) :
    snapshot.graph.outputs[output]? = some producers ↔
      ∃ items, listing.output? output = some (.array items) ∧
        ∀ name, name ∈ producers ↔ .string name ∈ items := by
  have houtputs := (of_snapshot? h).2.2
  have hempty : ¬ snapshot.outputs.isEmpty = true :=
    fun he => hlisted ((isEmpty_nameMap?_iff houtputs).mp he)
  have htable : snapshot.graph.outputs = snapshot.outputs := if_neg hempty
  rw [htable, getElem?_nameMap? houtputs]
  change (listing.output? output).bind Json.nameSet? = _ ↔ _
  rw [Option.bind_eq_some_iff]
  constructor
  · rintro ⟨value, hvalue, hread⟩
    obtain ⟨items, rfl, hmem⟩ := mem_of_nameSet? hread
    exact ⟨items, hvalue, hmem⟩
  · rintro ⟨items, hvalue, hmem⟩
    obtain ⟨names, hread⟩ := isSome_of_nameMap? houtputs hvalue
    obtain ⟨_, hitems, hnames⟩ := mem_of_nameSet? hread
    obtain rfl := Json.array.inj hitems
    have hsame : producers = names :=
      Std.ExtTreeSet.ext_mem fun name => (hmem name).trans (hnames name).symm
    exact ⟨_, hvalue, hsame ▸ hread⟩

theorem describes : listing.Describes snapshot.graph where
  contains name := by
    rw [← mem_names, Snapshot.mem_names_graph, mem_nameMap?_iff (of_snapshot? h).1]
    simp only [← edge_iff_links h, Snapshot.edge_graph, Prod.exists]
  known := exists_payload?_iff h
  payload name feedstock := by rw [payload?_eq_of_snapshot? h, Option.bind_eq_some_iff]
  edge source target := by
    rw [mem_edges_iff, edge_iff_links h]
  nodup_edges := snapshot.graph.nodup_edges
  dependency := edge_iff_links h
  dependent source target := by rw [mem_dependents_iff_edge, edge_iff_links h]
  listed := getElem?_outputs_of_listed h
  declared hnone output producers := by
    have hempty : snapshot.outputs.isEmpty = true :=
      (isEmpty_nameMap?_iff (of_snapshot? h).2.2).mpr hnone
    have htable : snapshot.graph.outputs = snapshot.bare.declaredOutputs := if_pos hempty
    rw [htable]
    exact snapshot.bare.getElem?_declaredOutputs_eq_some_iff output producers

-- A listing with the same edges in another order, or with some of them repeated, is accepted as well
-- and gives the same graph.
theorem graph_eq_of_edges {edges : List Json} (hsame : ∀ edge, edge ∈ edges ↔ edge ∈ listing.edges) :
    ∃ other, snapshot? { listing with edges := edges } = some other ∧
      other.graph = snapshot.graph := by
  obtain ⟨hnodes, hedges, houtputs⟩ := of_snapshot? h
  have hlinks : ∀ edge ∈ edges, edge ∈ Set.range link := by
    intro edge he
    rw [hsame, hedges] at he
    obtain ⟨known, -, rfl⟩ := List.mem_map.mp he
    exact ⟨known, rfl⟩
  obtain ⟨found, rfl⟩ : edges ∈ Set.range (List.map link) := by
    rw [Set.range_list_map]
    exact hlinks
  have hread : snapshot? { listing with edges := found.map link } =
      some { snapshot with edges := found } := by
    have hlist := (Json.list?_eq_some_iff edge?_eq_some_iff (found.map link) found).mpr rfl
    simp only [snapshot?, hnodes, hlist, houtputs, Option.bind_eq_bind, Option.bind_some]
    rfl
  refine ⟨_, hread, snapshot.graph_eq_of_edges fun edge => ?_⟩
  rw [← List.mem_map_of_injective link_injective, hsame, hedges,
    List.mem_map_of_injective link_injective]

end Faithful

end Listing

-- A text that is loaded gives the graph that the listing of its document describes. Another text whose
-- listing has the same nodes and outputs and the same edges, in any order and repeated or not, gives
-- the same graph.
theorem ofText_describes {text : String} {graph : Graph} (h : ofText text = .ok graph) :
    (∃ document, Snapshot.shape.ofText? text = some document) ∧
      ∀ document, Snapshot.Holds text document → ∃ listing,
        Listing.ofJson? document = some listing ∧ listing.Describes graph ∧
        ∀ other changed edges, Snapshot.Holds other changed →
          Listing.ofJson? changed = some { listing with edges := edges } →
          (∀ edge, edge ∈ edges ↔ edge ∈ listing.edges) → ofText other = .ok graph := by
  unfold ofText at h
  split at h
  · rename_i snapshot hsnapshot
    obtain rfl := Except.ok.inj h
    obtain ⟨seen, hseen, -⟩ := Option.bind_eq_some_iff.mp hsnapshot
    refine ⟨⟨seen, hseen⟩, fun document hholds => ?_⟩
    rw [hholds.ofJson?_eq, Listing.snapshot_ofJson?_eq] at hsnapshot
    obtain ⟨listing, hlisting, hentries⟩ := Option.bind_eq_some_iff.mp hsnapshot
    refine ⟨listing, hlisting, Listing.describes hentries, ?_⟩
    intro other changed edges hchanged hothers hsame
    obtain ⟨found, hfound, hgraph⟩ := Listing.graph_eq_of_edges hentries hsame
    have hread : Snapshot.ofJson? changed = some found := by
      rw [Listing.snapshot_ofJson?_eq, hothers, Option.bind_some, hfound]
    rw [hchanged.ofText_eq hread, hgraph]
  · cases h

-- Two feedstocks with an output in common, one of which nothing is known, and these edges.
def shared (edges : List (String × String)) : Json :=
  .object [("nodes", .object [("a", .object [("outputs_names", .array [.string "lib"])]),
      ("b", .object [("outputs_names", .array [.string "lib"])]), ("c", .null)]),
    ("edges", .array (edges.map Listing.link))]

-- The text of such a document with a member that no snapshot has, a number too large for a double.
def remarked (edges : List (String × String)) : String :=
  String.ofList ("\x7b\"remark\":1e999,".toList ++ (shared edges).compactChars.drop 1)

-- An edge to a name that has no entry, a loop and an edge that is given twice; then the same edges
-- in another order.
theorem ofText_describes_shared :
    ∃ graph, ofText (remarked [("a", "ghost"), ("b", "b"), ("a", "ghost")]) = .ok graph ∧
      (∃ listing, Listing.ofJson? (shared [("a", "ghost"), ("b", "b"), ("a", "ghost")]) =
        some listing ∧ listing.Describes graph) ∧
      ofText (shared [("b", "b"), ("a", "ghost")]).compact = .ok graph ∧
      Json.ofText? (remarked [("a", "ghost"), ("b", "b"), ("a", "ghost")]) = none := by
  have hread : (Snapshot.ofJson? (shared [("a", "ghost"), ("b", "b"), ("a", "ghost")])).isSome =
      true := by decide +kernel
  have htext : Snapshot.shape.ofText? (remarked [("a", "ghost"), ("b", "b"), ("a", "ghost")]) =
      some (shared [("a", "ghost"), ("b", "b"), ("a", "ghost")]) := by decide +kernel
  have hother : Json.ofText? (shared [("b", "b"), ("a", "ghost")]).compact =
      some (shared [("b", "b"), ("a", "ghost")]) := by decide +kernel
  obtain ⟨snapshot, hsnapshot⟩ := Option.isSome_iff_exists.mp hread
  have hload := (Snapshot.Holds.seen htext).ofText_eq hsnapshot
  obtain ⟨-, hdescribes⟩ := ofText_describes hload
  obtain ⟨listing, hlisting, hgraph, hsame⟩ := hdescribes _ (.seen htext)
  obtain rfl := Option.some.inj hlisting
  refine ⟨snapshot.graph, hload, ⟨_, hlisting, hgraph⟩, hsame _ _ _ (.entire hother) rfl ?_,
    by decide +kernel⟩
  intro edge
  simp [or_comm]

end Graph

end Rollout
