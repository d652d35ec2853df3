import Rollout.Proofs.Gate.OnGraph
import Rollout.Proofs.Graph.Prune
import Rollout.Proofs.Wave.Safety

namespace Rollout

namespace Gate

-- A feedstock that waits for itself: a loop makes it a dependency of its own, and its migration
-- is not settled. The pinning feedstock only has to be stale.
def HeldByItself (gate : Gate) (identify : Feedstock → Identity) (now : Instant)
    (feedstock : Feedstock) : Prop :=
  ¬ gate.Exempt feedstock.feedstockName ∧
    ∃ own, gate.Awaits feedstock.feedstockName feedstock.feedstockName own ∧
      isPending identify own = true ∧
        (gate.isPinning feedstock = true → gate.isStale identify now own = false)

-- Without attempts of its own a feedstock waits for itself as soon as there is a loop.
theorem heldByItself_of_find?_eq_none {gate : Gate} {identify : Feedstock → Identity}
    {feedstock : Feedstock} (he : ¬ gate.Exempt feedstock.feedstockName)
    (ha : gate.Awaits feedstock.feedstockName feedstock.feedstockName feedstock)
    (hf : feedstock.find? (identify feedstock) = none) (now : Instant) :
    gate.HeldByItself identify now feedstock :=
  ⟨he, feedstock, ha, by simp [isPending, hf], fun _ => by simp [isStale, hf]⟩

section RemoveLoops

variable (gate : Gate)

theorem awaits_removeLoops (name dependency : String) (upstream : Feedstock) :
    (gate.onGraph gate.graph.removeLoops).Awaits name dependency upstream ↔
      gate.Awaits name dependency upstream ∧ dependency ≠ name := by
  constructor
  · rintro ⟨he, hp, ha, hi⟩
    obtain ⟨he, hne⟩ := (gate.graph.edge_removeLoops dependency name).mp he
    exact ⟨⟨he, (gate.graph.payload?_removeLoops dependency).symm.trans hp, ha, hi⟩, hne⟩
  · rintro ⟨⟨he, hp, ha, hi⟩, hne⟩
    exact ⟨(gate.graph.edge_removeLoops dependency name).mpr ⟨he, hne⟩,
      (gate.graph.payload?_removeLoops dependency).trans hp, ha, hi⟩

theorem known_removeLoops {name : String}
    (hknown : ∀ dependency, gate.graph.Edge dependency name →
      ∃ upstream, gate.graph.payload? dependency = some upstream) (dependency : String)
    (he : (gate.onGraph gate.graph.removeLoops).graph.Edge dependency name) :
    ∃ upstream, (gate.onGraph gate.graph.removeLoops).graph.payload? dependency = some upstream := by
  obtain ⟨upstream, hp⟩ := hknown dependency ((gate.graph.edge_removeLoops _ _).mp he).1
  exact ⟨upstream, (gate.graph.payload?_removeLoops dependency).trans hp⟩

theorem forall_awaits_iff (name : String) (property : Feedstock → Prop) :
    (∀ dependency upstream, gate.Awaits name dependency upstream → property upstream) ↔
      (∀ dependency upstream, (gate.onGraph gate.graph.removeLoops).Awaits name dependency upstream →
        property upstream) ∧ ∀ own, gate.Awaits name name own → property own := by
  simp only [awaits_removeLoops]
  constructor
  · exact fun h => ⟨fun dependency upstream ha => h dependency upstream ha.1, h name⟩
  · rintro ⟨hothers, hown⟩ dependency upstream ha
    by_cases hne : dependency = name
    · subst hne
      exact hown upstream ha
    · exact hothers dependency upstream ⟨ha, hne⟩

theorem aged_iff_removeLoops (identify : Feedstock → Identity) (now : Instant) (name : String) :
    gate.Aged identify now name ↔ (gate.onGraph gate.graph.removeLoops).Aged identify now name ∧
      ∀ own, gate.Awaits name name own → gate.isStale identify now own = true :=
  gate.forall_awaits_iff name _

theorem ready_iff_removeLoops (identify : Feedstock → Identity) (name : String) :
    gate.Ready identify name ↔ (gate.onGraph gate.graph.removeLoops).Ready identify name ∧
      ∀ own, gate.Awaits name name own → isPending identify own = false := by
  simp only [isPending_eq_false_iff]
  exact gate.forall_awaits_iff name _

-- A feedstock goes ahead just if it would do so without the loops and does not wait for itself.
theorem proceed_iff_removeLoops (identify : Feedstock → Identity) (now : Instant)
    (feedstock : Feedstock)
    (hknown : ∀ dependency, gate.graph.Edge dependency feedstock.feedstockName →
      ∃ upstream, gate.graph.payload? dependency = some upstream) :
    gate.verdict identify now feedstock = .ok .proceed ↔
      (gate.onGraph gate.graph.removeLoops).verdict identify now feedstock = .ok .proceed ∧
        ¬ gate.HeldByItself identify now feedstock := by
  rw [verdict_eq_proceed_iff, verdict_eq_proceed_iff, aged_iff_removeLoops, ready_iff_removeLoops,
    and_assoc]
  refine and_congr (gate.graph.mem_names_removeLoops _).symm ?_
  constructor
  · rintro (he | ⟨-, hway⟩)
    · exact ⟨.inl he, fun hheld => hheld.1 he⟩
    · refine ⟨.inr ⟨gate.known_removeLoops hknown, ?_⟩, ?_⟩
      · exact hway.imp (And.imp_right And.left) And.left
      · rintro ⟨-, own, ha, hpending, hfresh⟩
        rcases hway with ⟨hpinning, -, hown⟩ | ⟨-, hown⟩
        · cases (hfresh hpinning).symm.trans (hown own ha)
        · cases (hown own ha).symm.trans hpending
  · rintro ⟨he | ⟨-, hway⟩, hheld⟩
    · exact .inl he
    by_cases he : gate.Exempt feedstock.feedstockName
    · exact .inl he
    refine .inr ⟨hknown, ?_⟩
    by_cases hpinning : gate.isPinning feedstock = true
    · refine .inl ⟨hpinning, hway.elim And.right fun hready => hready.aged now, fun own ha => ?_⟩
      by_contra hstale
      have hpending : isPending identify own = true := by
        by_contra hsettled
        exact hstale (gate.isStale_of_isPending now (Bool.not_eq_true _ ▸ hsettled))
      exact hheld ⟨he, own, ha, hpending, fun _ => Bool.not_eq_true _ ▸ hstale⟩
    · refine .inr ⟨hway.resolve_left fun h => hpinning h.1, fun own ha => ?_⟩
      by_contra hpending
      exact hheld ⟨he, own, ha, Bool.not_eq_false _ ▸ hpending, fun h => absurd h hpinning⟩

-- Loops change no answer but the one that lets a feedstock go ahead.
theorem verdict_removeLoops (identify : Feedstock → Identity) (now : Instant) (feedstock : Feedstock)
    (hknown : ∀ name ∈ gate.graph.names, ∃ upstream, gate.graph.payload? name = some upstream) :
    gate.verdict identify now feedstock =
        (gate.onGraph gate.graph.removeLoops).verdict identify now feedstock ∨
      (gate.onGraph gate.graph.removeLoops).verdict identify now feedstock = .ok .proceed ∧
        gate.verdict identify now feedstock = .ok (.skip .predecessorsNotBuilt) := by
  by_cases hm : feedstock.feedstockName ∈ gate.graph.names
  · have hm' : feedstock.feedstockName ∈ (gate.onGraph gate.graph.removeLoops).graph.names :=
      (gate.graph.mem_names_removeLoops _).mpr hm
    have hdependencies : ∀ dependency, gate.graph.Edge dependency feedstock.feedstockName →
        ∃ upstream, gate.graph.payload? dependency = some upstream :=
      fun dependency he => hknown dependency he.source_mem
    have hiff := gate.proceed_iff_removeLoops identify now feedstock hdependencies
    rcases verdict_of_known identify now hm hdependencies with hahead | hwaits
    · exact .inl (hahead.trans (hiff.mp hahead).1.symm)
    · rcases verdict_of_known identify now hm' (gate.known_removeLoops hdependencies) with h | h
      · exact .inr ⟨h, hwaits⟩
      · exact .inl (hwaits.trans h.symm)
  · have hm' : feedstock.feedstockName ∉ (gate.onGraph gate.graph.removeLoops).graph.names :=
      fun h => hm ((gate.graph.mem_names_removeLoops _).mp h)
    exact .inl ((verdict_of_not_mem identify now hm).trans (verdict_of_not_mem identify now hm').symm)

end RemoveLoops

end Gate

namespace Wave

section Known

variable (wave : Wave) {graph : Graph}
  (hknown : ∀ name ∈ graph.names, ∃ feedstock, graph.payload? name = some feedstock)
  (now : Instant) (feedstock : Feedstock)
include hknown

theorem proceed_iff_removeLoops :
    (wave.job graph).verdict now feedstock = .ok .proceed ↔
      (wave.job graph.removeLoops).verdict now feedstock = .ok .proceed ∧
        ¬ (wave.gate graph).HeldByItself wave.identity now feedstock := by
  rw [Job.verdict_eq_proceed_iff (wave.gate?_job graph),
    Job.verdict_eq_proceed_iff (wave.gate?_job graph.removeLoops), and_assoc]
  refine and_congr_right fun _ => ?_
  exact (wave.gate graph).proceed_iff_removeLoops wave.identity now feedstock
    fun dependency he => hknown dependency he.source_mem

theorem verdict_removeLoops :
    (wave.job graph).verdict now feedstock = (wave.job graph.removeLoops).verdict now feedstock ∨
      (wave.job graph.removeLoops).verdict now feedstock = .ok .proceed ∧
        (wave.job graph).verdict now feedstock = .ok (.skip .predecessorsNotBuilt) := by
  have hscreen : (wave.job graph.removeLoops).screen feedstock = (wave.job graph).screen feedstock := rfl
  rw [Job.verdict_of_gate? (wave.gate?_job graph),
    Job.verdict_of_gate? (wave.gate?_job graph.removeLoops), hscreen]
  cases (wave.job graph).screen feedstock with
  | some reason => exact .inl rfl
  | none => exact (wave.gate graph).verdict_removeLoops wave.identity now feedstock hknown

end Known

-- Loops matter to the feedstocks on them alone: one that would go ahead has to wait if it waits
-- for itself. What it waits for is its own migration, so that it never goes ahead.
theorem loop_holds_back_iff (wave : Wave) (graph : Graph)
    (hknown : ∀ name ∈ graph.names, ∃ feedstock, graph.payload? name = some feedstock)
    (now : Instant) (feedstock : Feedstock) :
    ((wave.job graph).verdict now feedstock ≠ (wave.job graph.removeLoops).verdict now feedstock ↔
      (wave.job graph.removeLoops).verdict now feedstock = .ok .proceed ∧
        (wave.gate graph).HeldByItself wave.identity now feedstock) ∧
    ((wave.job graph).verdict now feedstock ≠ (wave.job graph.removeLoops).verdict now feedstock →
      (wave.job graph).verdict now feedstock = .ok (.skip .predecessorsNotBuilt)) ∧
    (graph.payload? feedstock.feedstockName = some feedstock →
      graph.Edge feedstock.feedstockName feedstock.feedstockName →
      ¬ (wave.gate graph).Exempt feedstock.feedstockName →
      (wave.gate graph).ignores feedstock.feedstockName feedstock.feedstockName = false →
      (wave.job graph).verdict now feedstock ≠ .ok .proceed) := by
  have hiff := wave.proceed_iff_removeLoops hknown now feedstock
  have hcases := wave.verdict_removeLoops hknown now feedstock
  refine ⟨⟨fun hne => ?_, ?_⟩, fun hne => (hcases.resolve_left hne).2, ?_⟩
  · obtain ⟨hahead, hwaits⟩ := hcases.resolve_left hne
    refine ⟨hahead, ?_⟩
    by_contra hheld
    cases hwaits.symm.trans (hiff.mpr ⟨hahead, hheld⟩)
  · rintro ⟨hahead, hheld⟩ heq
    exact (hiff.mp (heq.trans hahead)).2 hheld
  · intro hp he hexempt hheeded hahead
    obtain ⟨hactive, hf, -⟩ := (Job.screen_eq_none_iff _ feedstock).mp (Job.screen_of_verdict hahead)
    have hheld := Gate.heldByItself_of_find?_eq_none hexempt ⟨he, hp, hactive, hheeded⟩ hf now
    exact (hiff.mp hahead).2 hheld

-- The dependency `a` is merged, but `b` depends on itself as well.
def looped : Graph := merged.connect "b" "b"

theorem loop_holds_back_looped :
    (∀ name ∈ looped.names, ∃ feedstock, looped.payload? name = some feedstock) ∧
      (plain.gate looped).HeldByItself plain.identity ⟨0, 0⟩ (.named "b") ∧
      (plain.job looped).verdict ⟨0, 0⟩ (.named "b") = .ok (.skip .predecessorsNotBuilt) ∧
      (plain.job looped).verdict ⟨0, 0⟩ (.named "b") ≠ .ok .proceed := by
  have hnamed : Named looped := by decide
  have hknown := exists_payload?_of_named hnamed
  have hexempt : ¬ (plain.gate looped).Exempt "b" := by simp [Gate.Exempt, plain, gate]
  have hp : looped.payload? "b" = some (.named "b") := by decide
  have he : looped.Edge "b" "b" := by decide
  have hheld : (plain.gate looped).HeldByItself plain.identity ⟨0, 0⟩ (.named "b") :=
    Gate.heldByItself_of_find?_eq_none hexempt ⟨he, hp, rfl, rfl⟩ rfl ⟨0, 0⟩
  obtain ⟨hdiffers, hwaits, hnever⟩ :=
    loop_holds_back_iff plain looped hknown ⟨0, 0⟩ (.named "b")
  exact ⟨hknown, hheld, hwaits (hdiffers.mpr ⟨by decide, hheld⟩), hnever hp he hexempt rfl⟩

-- Without the loop `b` would go ahead.
theorem looped_verdict_ne :
    Named looped ∧ (plain.job looped.removeLoops).verdict ⟨0, 0⟩ (.named "b") = .ok .proceed ∧
      (plain.job looped).verdict ⟨0, 0⟩ (.named "b") = .ok (.skip .predecessorsNotBuilt) := by
  decide

end Wave

end Rollout
