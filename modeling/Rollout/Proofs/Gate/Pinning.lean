import Rollout.Proofs.Gate.Further
import Rollout.Proofs.Gate.Table

namespace Rollout

namespace Gate

section Checks

variable (gate : Gate) (identify : Feedstock → Identity) (now : Instant) (name : String)

theorem notYetBuilt_eq_error_iff (fault : Fault) :
    gate.notYetBuilt identify name = .error fault ↔
      ∃ dependency, gate.graph.FirstUnknown name dependency ∧ fault = .noPayload dependency := by
  rw [← gating_eq_error_iff, notYetBuilt]
  cases gate.gating name <;> simp [Except.map]

theorem issuedAndStale_eq_error_iff (fault : Fault) :
    gate.issuedAndStale identify now name = .error fault ↔
      ∃ dependency, gate.graph.FirstUnknown name dependency ∧ fault = .noPayload dependency := by
  rw [← gating_eq_error_iff, issuedAndStale]
  cases gate.gating name <;> simp [Except.map]

theorem notYetBuilt_eq_false_iff :
    gate.notYetBuilt identify name = .ok false ↔
      (∃ waited, gate.gating name = .ok waited) ∧ gate.Ready identify name := by
  rw [notYetBuilt]
  cases hwaited : gate.gating name with
  | error fault => simp [Except.map]
  | ok waited => simp only [Except.map, Except.ok.injEq, exists_eq', true_and,
      any_isPending_eq_false_iff hwaited]

theorem issuedAndStale_eq_true_iff :
    gate.issuedAndStale identify now name = .ok true ↔
      (∃ waited, gate.gating name = .ok waited) ∧ gate.Aged identify now name := by
  rw [issuedAndStale]
  cases hwaited : gate.gating name with
  | error fault => simp [Except.map]
  | ok waited => simp only [Except.map, Except.ok.injEq, exists_eq', true_and,
      all_gating_iff hwaited, Aged]

end Checks

-- The same gate with another pinning feedstock.
def pinnedTo (gate : Gate) (name : String) : Gate := { gate with pinning := name }

variable {gate : Gate} {identify : Feedstock → Identity} {now : Instant} {feedstock : Feedstock}
  {name pinning : String}

theorem awaits_pinnedTo_iff {dependency : String} {upstream : Feedstock} :
    (gate.pinnedTo pinning).Awaits name dependency upstream ↔ gate.Awaits name dependency upstream :=
  ⟨fun h => ⟨h.edge, h.payload, h.active, h.heeded⟩, fun h => ⟨h.edge, h.payload, h.active, h.heeded⟩⟩

theorem ready_pinnedTo_iff :
    (gate.pinnedTo pinning).Ready identify name ↔ gate.Ready identify name := by
  simp only [Ready, awaits_pinnedTo_iff]

theorem aged_pinnedTo_iff :
    (gate.pinnedTo pinning).Aged identify now name ↔ gate.Aged identify now name := by
  simp only [Aged, awaits_pinnedTo_iff]
  rfl

-- The pinning feedstock goes ahead of stale dependencies, and a feedstock that is ready has no
-- others.
theorem verdict_pinnedTo (hname : pinning = feedstock.name ∨ pinning = feedstock.feedstockName)
    (h : gate.verdict identify now feedstock = .ok .proceed) :
    (gate.pinnedTo pinning).verdict identify now feedstock = .ok .proceed := by
  have hpinning : (gate.pinnedTo pinning).isPinning feedstock = true := by
    rw [isPinning_eq_true_iff]
    exact hname.imp Eq.symm Eq.symm
  obtain ⟨hm, hway⟩ := (gate.verdict_eq_proceed_iff ..).mp h
  refine ((gate.pinnedTo pinning).verdict_eq_proceed_iff ..).mpr ⟨hm, ?_⟩
  rw [aged_pinnedTo_iff, ready_pinnedTo_iff]
  rcases hway with hexempt | ⟨hknown, ⟨-, haged⟩ | hready⟩
  · exact .inl hexempt
  · exact .inr ⟨hknown, .inl ⟨hpinning, haged⟩⟩
  · exact .inr ⟨hknown, .inl ⟨hpinning, hready.aged now⟩⟩

end Gate

namespace Job

variable {job : Job} {gate : Gate} {feedstock : Feedstock} {now : Instant} {pinning : String}

-- What rules a feedstock out for every job has nothing to do with the pinning feedstock.
theorem verdict_pinnedTo (hgate : job.gate? = some gate)
    (hname : pinning = feedstock.name ∨ pinning = feedstock.feedstockName)
    (h : job.verdict now feedstock = .ok .proceed) :
    (job.withGate (gate.pinnedTo pinning)).verdict now feedstock = .ok .proceed := by
  obtain ⟨hscreen, hverdict⟩ := (verdict_eq_proceed_iff hgate now feedstock).mp h
  rw [verdict_eq_proceed_iff (gate?_withGate hgate _), screen_withGate hgate, identity_withGate]
  exact ⟨hscreen, Gate.verdict_pinnedTo hname hverdict⟩

end Job

-- The two checks fail on the same feedstocks and over the same dependency, the first of which
-- nothing is known, and dependencies that are all built are all stale at any time. So it holds
-- nobody back to be the pinning feedstock.
theorem Gate.checks_consistent (gate : Gate) (identify : Feedstock → Identity) (now : Instant)
    (feedstock : Feedstock) :
    (∀ fault, gate.notYetBuilt identify feedstock.feedstockName = .error fault ↔
      gate.issuedAndStale identify now feedstock.feedstockName = .error fault) ∧
    (gate.notYetBuilt identify feedstock.feedstockName = .ok false →
      gate.issuedAndStale identify now feedstock.feedstockName = .ok true) ∧
    ∀ pinning, pinning = feedstock.name ∨ pinning = feedstock.feedstockName →
      (gate.verdict identify now feedstock = .ok .proceed →
        (gate.pinnedTo pinning).verdict identify now feedstock = .ok .proceed) ∧
      ∀ job : Job, job.gate? = some gate → job.verdict now feedstock = .ok .proceed →
        (job.withGate (gate.pinnedTo pinning)).verdict now feedstock = .ok .proceed := by
  refine ⟨fun fault => ?_, fun hbuilt => ?_, fun pinning hname =>
    ⟨verdict_pinnedTo hname, fun job hgate => Job.verdict_pinnedTo hgate hname⟩⟩
  · rw [notYetBuilt_eq_error_iff, issuedAndStale_eq_error_iff]
  · obtain ⟨hwaited, hready⟩ := (gate.notYetBuilt_eq_false_iff ..).mp hbuilt
    exact (gate.issuedAndStale_eq_true_iff ..).mpr ⟨hwaited, hready.aged now⟩

-- The only dependency of `b` is merged, at a time that nobody knows.
def undated : Attempt :=
  .ofIdentity (.make "GraphMigrator" 0 none (some "main") .null) (some ⟨some .merged, none, none⟩)

def mergedGate : Gate := .ofGraph
  (((Graph.empty.add "a" ((Feedstock.named "a").attempted undated)).add "b" (.named "b")).connect "a" "b")

def mergedJob : Job := ⟨.ofVersion 0, .wave none mergedGate⟩

theorem Gate.checks_consistent_merged :
    mergedGate.notYetBuilt mergedJob.identity "b" = .ok false ∧
      mergedGate.issuedAndStale mergedJob.identity ⟨0, 0⟩ "b" = .ok true ∧
      mergedJob.verdict ⟨0, 0⟩ (.named "b") = .ok .proceed ∧
      (mergedJob.withGate (mergedGate.pinnedTo "b")).verdict ⟨0, 0⟩ (.named "b") = .ok .proceed := by
  have hbuilt : mergedGate.notYetBuilt mergedJob.identity "b" = .ok false := by decide +kernel
  have hproceed : mergedJob.verdict ⟨0, 0⟩ (.named "b") = .ok .proceed := by decide +kernel
  obtain ⟨-, hstale, hpinned⟩ :=
    checks_consistent mergedGate mergedJob.identity ⟨0, 0⟩ (.named "b")
  exact ⟨hbuilt, hstale hbuilt, hproceed, (hpinned "b" (.inl rfl)).2 mergedJob rfl hproceed⟩

end Rollout
