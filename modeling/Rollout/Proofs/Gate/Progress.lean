import Rollout.Proofs.Feedstock
import Rollout.Proofs.Gate
import Rollout.Proofs.Graph.Cycles

namespace Rollout.Graph

-- What still has to be migrated: neither archived nor with its identity on record.
def remaining (graph : Graph) (identify : Feedstock → Identity) : List String :=
  graph.names.filter fun name => (graph.payload? name).any fun feedstock =>
    !feedstock.archived && (feedstock.find? (identify feedstock)).isNone

theorem mem_remaining (graph : Graph) (identify : Feedstock → Identity) (name : String) :
    name ∈ graph.remaining identify ↔ ∃ feedstock, graph.payload? name = some feedstock ∧
      feedstock.archived = false ∧ feedstock.find? (identify feedstock) = none := by
  simp only [remaining, List.mem_filter, Option.any_eq_true, Bool.and_eq_true, Bool.not_eq_true',
    Option.isNone_iff_eq_none]
  constructor
  · exact And.right
  · rintro ⟨feedstock, hp, hf⟩
    exact ⟨mem_names_of_payload? hp, feedstock, hp, hf⟩

-- Nothing that a name depends on still has to be migrated.
def Unblocked (graph : Graph) (identify : Feedstock → Identity) (name : String) : Prop :=
  ∀ dependency ∈ graph.remaining identify, ¬ graph.Edge dependency name

instance (graph : Graph) (identify : Feedstock → Identity) (name : String) :
    Decidable (graph.Unblocked identify name) := by
  unfold Unblocked
  infer_instance

-- If everything that remains depends on something that remains, a cycle runs through it.
theorem exists_cycle_of_blocked {graph : Graph} {identify : Feedstock → Identity}
    (hne : graph.remaining identify ≠ [])
    (hblocked : ¬ ∃ name ∈ graph.remaining identify, graph.Unblocked identify name) :
    ∃ first rest, graph.Cycle first rest ∧ ∀ name ∈ first :: rest, name ∈ graph.remaining identify := by
  apply graph.exists_cycle _ hne
  intro name hm
  by_contra hfree
  refine hblocked ⟨name, hm, fun dependency hd he => hfree ⟨dependency, hd, he⟩⟩

-- Nothing rules out a feedstock that remains, and every pull request is settled.
structure Clear (graph : Graph) (identify : Feedstock → Identity) : Prop where
  sound : ∀ name feedstock, graph.payload? name = some feedstock → feedstock.archived = false →
    feedstock.find? (identify feedstock) = none →
    feedstock.parsingError = false ∧ feedstock.standing.blocks Gate.tolerance = false
  settled : ∀ name feedstock, graph.payload? name = some feedstock →
    ∀ attempt ∈ feedstock.attempts, attempt.matchesIdentity (identify feedstock) = true →
      attempt.IsSettled

end Rollout.Graph

namespace Rollout.Gate

variable {gate : Gate} {identify : Feedstock → Identity}

theorem ready_of_unblocked (hclear : gate.graph.Clear identify) {name : String}
    (hfree : gate.graph.Unblocked identify name) : gate.Ready identify name := by
  intro dependency upstream ha
  cases hf : upstream.find? (identify upstream) with
  | none =>
      have hm : dependency ∈ gate.graph.remaining identify :=
        (gate.graph.mem_remaining identify dependency).mpr ⟨upstream, ha.payload, ha.active, hf⟩
      exact absurd ha.edge (hfree dependency hm)
  | some attempt =>
      obtain ⟨hm, hmatches⟩ := Feedstock.of_find?_eq_some hf
      exact ⟨attempt, rfl, hclear.settled dependency upstream ha.payload attempt hm hmatches⟩

-- With something left to wait for, not even the pinning feedstock goes ahead.
theorem unblocked_of_verdict {now : Instant} {feedstock : Feedstock} (hignored : gate.ignored = ∅)
    (he : ¬ gate.Exempt feedstock.feedstockName)
    (h : gate.verdict identify now feedstock = .ok .proceed) :
    gate.graph.Unblocked identify feedstock.feedstockName := by
  intro dependency hm hedge
  obtain ⟨upstream, hp, hactive, hf⟩ := (gate.graph.mem_remaining identify dependency).mp hm
  have ha : gate.Awaits feedstock.feedstockName dependency upstream :=
    ⟨hedge, hp, hactive, by simp [ignores, hignored]⟩
  exact not_proceed_of_find?_eq_none he ha hf h

end Rollout.Gate
