import Rollout.Proofs.Feedstock.Lapse
import Rollout.Proofs.Gate.OnGraph

namespace Rollout.Gate

-- The answer stays, or a feedstock that was let through has to wait.
def Hindered (before after : Except Fault Verdict) : Prop :=
  after = before ∨ before = .ok .proceed ∧ after = .ok (.skip .predecessorsNotBuilt)

-- The two checks that a verdict goes by, when fewer dependencies are stale and more pending.
theorem hindered_of_checks {pinning stale fewer pending more : Bool}
    (hstale : fewer = true → stale = true) (hpending : more = false → pending = false) :
    Hindered
      (.ok (if pinning && stale then .proceed else if pending then .skip .predecessorsNotBuilt
        else .proceed))
      (.ok (if pinning && fewer then .proceed else if more then .skip .predecessorsNotBuilt
        else .proceed)) := by
  by_cases hahead : (pinning && fewer) = true
  · obtain ⟨hp, hfewer⟩ := Bool.and_eq_true_iff.mp hahead
    rw [if_pos hahead, if_pos (Bool.and_eq_true_iff.mpr ⟨hp, hstale hfewer⟩)]
    exact .inl rfl
  rw [if_neg hahead]
  cases more with
  | false =>
      rw [hpending rfl]
      simp [Hindered]
  | true =>
      -- It waits now, whether or not it did so before.
      rw [if_pos rfl]
      unfold Hindered
      split_ifs
      · exact .inr ⟨rfl, rfl⟩
      · exact .inl rfl
      · exact .inr ⟨rfl, rfl⟩

section Upstream

variable {identify : Feedstock → Identity} {before after : Feedstock} (h : before.Lapses after)
  (hidentify : identify before = identify after)
include h hidentify

theorem isPending_eq_false_of_lapses (hpending : isPending identify after = false) :
    isPending identify before = false := by
  rw [isPending_eq_false_iff] at hpending ⊢
  obtain ⟨known, hf, hsettled⟩ := hpending
  obtain ⟨attempt, he, hlapses⟩ := h.exists_of_find? hf
  exact ⟨attempt, hidentify ▸ he, hlapses.isSettled hsettled⟩

theorem isStale_of_lapses (gate : Gate) (now : Instant)
    (hstale : gate.isStale identify now after = true) :
    gate.isStale identify now before = true := by
  rw [isStale_eq_true_iff] at hstale ⊢
  obtain ⟨known, hf, hold⟩ := hstale
  obtain ⟨attempt, he, hlapses⟩ := h.exists_of_find? hf
  refine ⟨attempt, hidentify ▸ he, ?_⟩
  rcases hold with hsettled | ⟨created, hc, hwindow⟩
  · exact .inl (hlapses.isSettled hsettled)
  · exact .inr ⟨created, hlapses.createdAt?_eq hc, hwindow⟩

end Upstream

section OnGraph

variable {gate : Gate} {graph : Graph} (h : gate.graph.Alike Feedstock.Lapses graph)
include h

theorem Awaits.onGraph {name dependency : String} {upstream : Feedstock}
    (ha : gate.Awaits name dependency upstream) :
    ∃ lapsed, (gate.onGraph graph).Awaits name dependency lapsed ∧ upstream.Lapses lapsed := by
  obtain ⟨lapsed, hp, hlapses⟩ := h.exists_of_payload? ha.payload
  refine ⟨lapsed, ⟨(h.edge _ _).mp ha.edge, hp, ?_, ha.heeded⟩, hlapses⟩
  obtain ⟨attempts, -, rfl⟩ := hlapses
  exact ha.active

section Waited

variable {identify : Feedstock → Identity}
  (hidentify : ∀ before after : Feedstock, before.Lapses after → identify before = identify after)
  {name : String} {waited lapsed : List Feedstock} (hwaited : gate.gating name = .ok waited)
  (hlapsed : (gate.onGraph graph).gating name = .ok lapsed)
include hidentify hwaited hlapsed

theorem all_isStale_of_onGraph (now : Instant)
    (hstale : lapsed.all ((gate.onGraph graph).isStale identify now) = true) :
    waited.all (gate.isStale identify now) = true := by
  rw [all_gating_iff hwaited]
  rw [all_gating_iff hlapsed] at hstale
  intro dependency upstream ha
  obtain ⟨known, hk, hlapses⟩ := ha.onGraph h
  exact isStale_of_lapses hlapses (hidentify _ _ hlapses) gate now (hstale dependency known hk)

theorem any_isPending_eq_false_of_onGraph (hpending : lapsed.any (isPending identify) = false) :
    waited.any (isPending identify) = false := by
  rw [any_isPending_eq_false_iff hwaited]
  rw [any_isPending_eq_false_iff hlapsed] at hpending
  intro dependency upstream ha
  obtain ⟨known, hk, hlapses⟩ := ha.onGraph h
  rw [← isPending_eq_false_iff]
  apply isPending_eq_false_of_lapses hlapses (hidentify _ _ hlapses)
  exact (isPending_eq_false_iff _ _).mpr (hpending dependency known hk)

end Waited

-- Lapses in the graph let nothing through, and no fault comes or goes.
theorem verdict_onGraph_hindered {identify : Feedstock → Identity}
    (hidentify : ∀ before after : Feedstock, before.Lapses after → identify before = identify after)
    (now : Instant) {before after : Feedstock} (hlapses : before.Lapses after) :
    Hindered (gate.verdict identify now before) ((gate.onGraph graph).verdict identify now after) := by
  obtain ⟨hname, hpinning⟩ : after.feedstockName = before.feedstockName ∧
      gate.isPinning after = gate.isPinning before := by
    obtain ⟨attempts, -, rfl⟩ := hlapses
    exact ⟨rfl, rfl⟩
  rcases verdict_onGraph_cases h identify now hname hpinning with
    he | ⟨waited, lapsed, hwaited, hlapsed, hbefore, hafter⟩
  · exact .inl he
  · rw [hbefore, hafter]
    exact hindered_of_checks (all_isStale_of_onGraph h hidentify hwaited hlapsed now)
      (any_isPending_eq_false_of_onGraph h hidentify hwaited hlapsed)

end OnGraph

end Rollout.Gate
