import Rollout.Proofs.Gate
import Rollout.Proofs.Graph.Alike

namespace Rollout

-- Two payloads that nobody who waits for the feedstock can tell apart.
structure Feedstock.SameUpstream (identify : Feedstock → Identity) (before after : Feedstock) :
    Prop where
  archived : before.archived = after.archived
  found : before.find? (identify before) = after.find? (identify after)

namespace Gate

-- The same gate over another graph.
def onGraph (gate : Gate) (graph : Graph) : Gate := { gate with graph := graph }

theorem isPending_eq_of_sameUpstream {identify : Feedstock → Identity} {before after : Feedstock}
    (h : before.SameUpstream identify after) : isPending identify before = isPending identify after := by
  rw [isPending, isPending, h.found]

theorem isStale_eq_of_sameUpstream (gate : Gate) {identify : Feedstock → Identity}
    {before after : Feedstock} (h : before.SameUpstream identify after) (now : Instant) :
    gate.isStale identify now before = gate.isStale identify now after := by
  rw [isStale, isStale, h.found]

section OnGraph

variable {R : Feedstock → Feedstock → Prop} {gate : Gate} {graph : Graph}
  (h : gate.graph.Alike R graph)
include h

theorem gating_onGraph_eq_error_iff (name : String) (fault : Fault) :
    (gate.onGraph graph).gating name = .error fault ↔ gate.gating name = .error fault := by
  rw [gating_eq_error_iff, gating_eq_error_iff]
  simp only [h.firstUnknown_iff, onGraph]

-- Over graphs that differ in payloads alone, one feedstock can get two answers only by the
-- checks of those it waits for.
theorem verdict_onGraph_cases (identify : Feedstock → Identity) (now : Instant)
    {before after : Feedstock} (hname : after.feedstockName = before.feedstockName)
    (hpinning : gate.isPinning after = gate.isPinning before) :
    (gate.onGraph graph).verdict identify now after = gate.verdict identify now before ∨
      ∃ waited known, gate.gating before.feedstockName = .ok waited ∧
        (gate.onGraph graph).gating before.feedstockName = .ok known ∧
        gate.verdict identify now before =
          .ok (if gate.isPinning before && waited.all (gate.isStale identify now) then .proceed
            else if waited.any (isPending identify) then .skip .predecessorsNotBuilt
            else .proceed) ∧
        (gate.onGraph graph).verdict identify now after =
          .ok (if gate.isPinning before && known.all (gate.isStale identify now) then .proceed
            else if known.any (isPending identify) then .skip .predecessorsNotBuilt
            else .proceed) := by
  by_cases hm : before.feedstockName ∈ gate.graph.names
  case neg =>
    have hm' : after.feedstockName ∉ (gate.onGraph graph).graph.names :=
      fun hn => hm ((h.name _).mpr (hname ▸ hn))
    exact .inl ((verdict_of_not_mem identify now hm').trans (verdict_of_not_mem identify now hm).symm)
  have hm' : after.feedstockName ∈ (gate.onGraph graph).graph.names := hname ▸ (h.name _).mp hm
  by_cases he : gate.Exempt before.feedstockName
  case pos =>
    have he' : (gate.onGraph graph).Exempt after.feedstockName := hname ▸ he
    exact .inl ((verdict_of_exempt identify now hm' he').trans
      (verdict_of_exempt identify now hm he).symm)
  have he' : ¬ (gate.onGraph graph).Exempt after.feedstockName := fun hexempt => he (hname ▸ hexempt)
  cases hwaited : gate.gating before.feedstockName with
  | error fault =>
      have hknown := (gating_onGraph_eq_error_iff h _ _).mpr hwaited
      rw [← hname] at hknown
      exact .inl ((verdict_of_gating_error identify now hm' he' hknown).trans
        (verdict_of_gating_error identify now hm he hwaited).symm)
  | ok waited =>
      cases hknown : (gate.onGraph graph).gating before.feedstockName with
      | error fault => cases hwaited.symm.trans ((gating_onGraph_eq_error_iff h _ _).mp hknown)
      | ok known =>
          refine .inr ⟨waited, known, rfl, rfl, verdict_of_gating identify now hm he hwaited, ?_⟩
          rw [← hname] at hknown
          rw [verdict_of_gating identify now hm' he' hknown, ← hpinning]
          rfl

section Seen

variable {identify : Feedstock → Identity} {name : String}
  (hseen : ∀ dependency upstream other, gate.graph.Edge dependency name →
    gate.graph.payload? dependency = some upstream → graph.payload? dependency = some other →
    upstream.SameUpstream identify other)
include hseen

theorem all_gating_onGraph {waited known : List Feedstock} (hwaited : gate.gating name = .ok waited)
    (hknown : (gate.onGraph graph).gating name = .ok known) {test : Feedstock → Bool}
    (htest : ∀ {before after : Feedstock}, before.SameUpstream identify after →
      test before = test after) : known.all test = waited.all test := by
  rw [Bool.eq_iff_iff, all_gating_iff hknown, all_gating_iff hwaited]
  constructor
  · rintro hall dependency upstream ⟨he, hp, hactive, hheeded⟩
    obtain ⟨other, ho, -⟩ := h.exists_of_payload? hp
    have hsame := hseen dependency upstream other he hp ho
    exact (htest hsame).trans
      (hall dependency other ⟨(h.edge _ _).mp he, ho, hsame.archived ▸ hactive, hheeded⟩)
  · rintro hall dependency other ⟨he, ho, hactive, hheeded⟩
    obtain ⟨upstream, hp⟩ : ∃ upstream, gate.graph.payload? dependency = some upstream :=
      Option.ne_none_iff_exists'.mp fun hnone =>
        Option.some_ne_none other (ho.symm.trans ((h.payload?_eq_none_iff _).mp hnone))
    have hsame := hseen dependency upstream other ((h.edge _ _).mpr he) hp ho
    exact (htest hsame).symm.trans
      (hall dependency upstream ⟨(h.edge _ _).mpr he, hp, hsame.archived.trans hactive, hheeded⟩)

theorem any_gating_onGraph {waited known : List Feedstock} (hwaited : gate.gating name = .ok waited)
    (hknown : (gate.onGraph graph).gating name = .ok known) {test : Feedstock → Bool}
    (htest : ∀ {before after : Feedstock}, before.SameUpstream identify after →
      test before = test after) : known.any test = waited.any test := by
  rw [List.any_eq_not_all_not, List.any_eq_not_all_not]
  exact congrArg _ (all_gating_onGraph h hseen hwaited hknown fun hsame => congrArg _ (htest hsame))

end Seen

-- A verdict looks no further than the direct dependencies, and sees of them no more than whether
-- they are archived and what is on record for their identity.
theorem verdict_onGraph_eq {identify : Feedstock → Identity} (now : Instant)
    {before after : Feedstock} (hname : after.feedstockName = before.feedstockName)
    (hpinning : gate.isPinning after = gate.isPinning before)
    (hseen : ∀ dependency upstream other, gate.graph.Edge dependency before.feedstockName →
      gate.graph.payload? dependency = some upstream → graph.payload? dependency = some other →
      upstream.SameUpstream identify other) :
    (gate.onGraph graph).verdict identify now after = gate.verdict identify now before := by
  rcases verdict_onGraph_cases h identify now hname hpinning with
    he | ⟨waited, known, hwaited, hknown, hbefore, hafter⟩
  · exact he
  · rw [hbefore, hafter,
      all_gating_onGraph h hseen hwaited hknown fun hsame => gate.isStale_eq_of_sameUpstream hsame now,
      any_gating_onGraph h hseen hwaited hknown isPending_eq_of_sameUpstream]

end OnGraph

end Gate

end Rollout
