import Rollout.Proofs.Feedstock.Progress
import Rollout.Proofs.Gate.Plan
import Rollout.Proofs.Graph.Alike

namespace Rollout

namespace Instant

-- Moments in the order of the clock.
def NotAfter (earlier later : Instant) : Prop :=
  earlier.seconds < later.seconds ∨ earlier.seconds = later.seconds ∧ earlier.nanos ≤ later.nanos

-- Across a leap second the elapsed time may even shrink, since the leap second counts only at
-- times of day after it.
theorem elapsed_le_of_notAfter {now later opened : Instant} (h : now.NotAfter later)
    (hnow : now.inLeapSecond = false) (hlater : later.inLeapSecond = false)
    (hopened : opened.inLeapSecond = false) : now.elapsed opened ≤ later.elapsed opened := by
  simp only [elapsed, hnow, hlater, hopened, Bool.false_eq_true, and_false, if_false]
  simp only [inLeapSecond, ge_iff_le, decide_eq_false_iff_not, Nat.not_le] at hnow hlater
  unfold NotAfter at h
  unfold nanosPerSecond at *
  omega

end Instant

namespace Gate

-- A gate that has moved on: its feedstocks got ahead, more of them are exempt or more of their
-- dependencies ignored, and pull requests count as stale no later than before.
structure Furthers (gate further : Gate) : Prop where
  graph : gate.graph.Alike Feedstock.Progresses further.graph
  topLevel : ∀ name ∈ gate.topLevel, name ∈ further.topLevel
  cycles : ∀ name ∈ gate.cycles, name ∈ further.cycles
  ignores : ∀ name dependency, gate.ignores name dependency = true →
    further.ignores name dependency = true
  window : further.window ≤ gate.window
  pinning : further.pinning = gate.pinning

-- No pull request on record was opened within a leap second.
def LeapFree (graph : Graph) : Prop :=
  ∀ name feedstock, graph.payload? name = some feedstock → ∀ attempt ∈ feedstock.attempts,
    ∀ opened, attempt.createdAt? = some opened → opened.inLeapSecond = false

namespace Furthers

variable {gate further : Gate} (h : gate.Furthers further)
include h

theorem exempt {name : String} (he : gate.Exempt name) : further.Exempt name :=
  he.imp (h.topLevel name) (h.cycles name)

-- Nothing new is waited for.
theorem exists_awaits {name dependency : String} {later : Feedstock}
    (ha : further.Awaits name dependency later) :
    ∃ upstream, gate.Awaits name dependency upstream ∧ upstream.Progresses later := by
  rcases h.graph.payload?_cases dependency with ⟨-, hnone⟩ | ⟨upstream, other, hp, ho, hprogress⟩
  · cases hnone.symm.trans ha.payload
  obtain rfl : other = later := Option.some.inj (ho.symm.trans ha.payload)
  refine ⟨upstream, ⟨(h.graph.edge _ _).mpr ha.edge, hp, hprogress.active ha.active, ?_⟩, hprogress⟩
  rw [← Bool.not_eq_true]
  intro hignored
  cases ha.heeded.symm.trans (h.ignores name dependency hignored)

theorem known {name : String}
    (hknown : ∀ dependency, gate.graph.Edge dependency name →
      ∃ upstream, gate.graph.payload? dependency = some upstream) (dependency : String)
    (he : further.graph.Edge dependency name) :
    ∃ upstream, further.graph.payload? dependency = some upstream := by
  obtain ⟨upstream, hp⟩ := hknown dependency ((h.graph.edge _ _).mpr he)
  obtain ⟨later, hl, -⟩ := h.graph.exists_of_payload? hp
  exact ⟨later, hl⟩

section Identity

variable {identify : Feedstock → Identity}
  (hidentify : ∀ before after : Feedstock, before.Progresses after → identify after = identify before)
include hidentify

theorem ready {name : String} (hready : gate.Ready identify name) : further.Ready identify name := by
  intro dependency later ha
  obtain ⟨upstream, hu, hprogress⟩ := h.exists_awaits ha
  obtain ⟨attempt, hf, hs⟩ := hready dependency upstream hu
  obtain ⟨matured, hm, hmatures⟩ := hprogress.exists_find? hf
  exact ⟨matured, (hidentify _ _ hprogress).symm ▸ hm, hmatures.settled hs⟩

section Clock

variable {now later : Instant} (hlater : now.NotAfter later) (hnow : now.inLeapSecond = false)
  (hleap : later.inLeapSecond = false) (hfree : LeapFree gate.graph)
include hlater hnow hleap hfree

theorem aged {name : String} (haged : gate.Aged identify now name) :
    further.Aged identify later name := by
  intro dependency after ha
  obtain ⟨upstream, hu, hprogress⟩ := h.exists_awaits ha
  obtain ⟨attempt, hf, hold⟩ := (isStale_eq_true_iff ..).mp (haged dependency upstream hu)
  obtain ⟨matured, hm, hmatures⟩ := hprogress.exists_find? hf
  refine (isStale_eq_true_iff ..).mpr ⟨matured, (hidentify _ _ hprogress).symm ▸ hm, ?_⟩
  rcases hold with hs | ⟨opened, hopened, hwindow⟩
  · exact .inl (hmatures.settled hs)
  · refine .inr ⟨opened, hmatures.created.trans hopened, ?_⟩
    have hin : attempt ∈ upstream.attempts := (Feedstock.of_find?_eq_some hf).1
    have helapsed : now.elapsed opened ≤ later.elapsed opened :=
      Instant.elapsed_le_of_notAfter hlater hnow hleap
        (hfree dependency upstream hu.payload attempt hin opened hopened)
    exact h.window.trans (hwindow.trans helapsed)

theorem verdict {feedstock : Feedstock}
    (hproceed : gate.verdict identify now feedstock = .ok .proceed) :
    further.verdict identify later feedstock = .ok .proceed := by
  obtain ⟨hm, hway⟩ := (gate.verdict_eq_proceed_iff ..).mp hproceed
  refine (further.verdict_eq_proceed_iff ..).mpr ⟨(h.graph.name _).mp hm, ?_⟩
  rcases hway with he | ⟨hknown, ⟨hpinning, haged⟩ | hready⟩
  · exact .inl (h.exempt he)
  · refine .inr ⟨h.known hknown, .inl ⟨?_, h.aged hidentify hlater hnow hleap hfree haged⟩⟩
    rwa [isPinning, h.pinning]
  · exact .inr ⟨h.known hknown, .inr (h.ready hidentify hready)⟩

end Clock

end Identity

end Furthers

end Gate

namespace Job

-- The same job with another gate. A job without one stays as it is.
def withGate (job : Job) (gate : Gate) : Job where
  settings := job.settings
  kind := match job.kind with
    | .wave name _ => .wave name gate
    | .platforms profile name _ targets => .platforms profile name gate targets
    | kind => kind

theorem gate?_withGate {job : Job} {own : Gate} (hgate : job.gate? = some own) (gate : Gate) :
    (job.withGate gate).gate? = some gate := by
  unfold withGate gate? at *
  cases hk : job.kind with
  | bookkeeping => simp [hk] at hgate
  | swap pair => simp [hk] at hgate
  | wave name other => rfl
  | platforms profile name other targets => rfl

theorem identity_withGate (job : Job) (gate : Gate) : (job.withGate gate).identity = job.identity := by
  funext feedstock
  unfold withGate identity migratorName stamp
  cases job.kind <;> rfl

theorem screen_withGate {job : Job} {own : Gate} (hgate : job.gate? = some own) (gate : Gate)
    (feedstock : Feedstock) : (job.withGate gate).screen feedstock = job.screen feedstock := by
  rw [screen, screen, identity_withGate, tolerance_of_gate? hgate,
    tolerance_of_gate? (gate?_withGate hgate gate)]

-- The branch of a feedstock is all that its identity depends on.
theorem identity_of_branch (job : Job) {before after : Feedstock} (h : after.branch = before.branch) :
    job.identity after = job.identity before := by
  rw [identity, identity, h]

-- A feedstock that was let through is let through ever after, whatever has moved on: attempts
-- put on record, pull requests settled, feedstocks archived, exemptions added, the window
-- shortened, and the clock gone on.
theorem proceed_of_furthers (job : Job) (gate further : Gate) (hgate : job.gate? = some gate)
    (h : gate.Furthers further) (now later : Instant) (hlater : now.NotAfter later)
    (hnow : now.inLeapSecond = false) (hleap : later.inLeapSecond = false)
    (hfree : Gate.LeapFree gate.graph) (feedstock : Feedstock)
    (hproceed : job.verdict now feedstock = .ok .proceed) :
    (job.withGate further).verdict later feedstock = .ok .proceed := by
  have hidentify : ∀ before after : Feedstock, before.Progresses after →
      job.identity after = job.identity before :=
    fun _ _ hprogress => job.identity_of_branch hprogress.branch
  obtain ⟨hscreen, hverdict⟩ := (verdict_eq_proceed_iff hgate now feedstock).mp hproceed
  rw [verdict_eq_proceed_iff (gate?_withGate hgate further), screen_withGate hgate, identity_withGate]
  exact ⟨hscreen, h.verdict hidentify hlater hnow hleap hfree hverdict⟩

-- The pull request of `a` has been open for just the window when the pinning feedstock `b` goes
-- ahead of it.
def opening : Attempt :=
  .ofIdentity (.make "GraphMigrator" 0 none (some "main") .null)
    (some ⟨some .opened, some "2024-01-01T00:00:00Z", none⟩)

def aging : Graph :=
  ((Graph.empty.add "a" ((Feedstock.named "a").attempted opening)).add "b" (.named "b")).connect "a" "b"

def agingGate : Gate := { Gate.ofGraph aging with pinning := "b" }

def agingJob : Job := ⟨.ofVersion 0, .wave none agingGate⟩

-- Another attempt of the same migration is on record, `c` is exempt, and the window is shorter.
def agedGate : Gate where
  graph := aging.revise "a" fun feedstock => feedstock.attempted { opening with hosting := none }
  topLevel := NameSet.ofList ["c"]
  cycles := ∅
  ignored := ∅
  window := 10 * 86400 * Instant.nanosPerSecond
  pinning := "b"

theorem furthers_agedGate : agingGate.Furthers agedGate where
  graph := Graph.alike_revise Feedstock.Progresses.refl aging "a" fun feedstock =>
    Relation.ReflTransGen.single (.attempted feedstock _)
  topLevel _ hm := absurd hm Std.ExtTreeSet.not_mem_empty
  cycles _ hm := hm
  ignores _ _ hi := hi
  window := by decide
  pinning := rfl

theorem leapFree_aging : Gate.LeapFree aging := by
  intro name feedstock hp attempt hm opened hopened
  simp only [aging, Graph.payload?_connect, Graph.payload?_add] at hp
  split at hp
  · obtain rfl := Option.some.inj hp
    cases hm
  · split at hp
    · obtain rfl := Option.some.inj hp
      obtain rfl : attempt = opening := List.mem_singleton.mp hm
      have htime : opening.createdAt? = some ⟨1704067200, 0⟩ := by decide +kernel
      obtain rfl := Option.some.inj (htime.symm.trans hopened)
      rfl
    · cases hp

theorem proceed_of_furthers_aging :
    agingJob.gate? = some agingGate ∧ agingGate.Furthers agedGate ∧ Gate.LeapFree aging ∧
      agingJob.verdict ⟨1705276799, 0⟩ (.named "b") = .ok (.skip .predecessorsNotBuilt) ∧
      agingJob.verdict ⟨1705276800, 0⟩ (.named "b") = .ok .proceed ∧
      (agingJob.withGate agedGate).verdict ⟨1705276801, 0⟩ (.named "b") = .ok .proceed := by
  have hproceed : agingJob.verdict ⟨1705276800, 0⟩ (.named "b") = .ok .proceed := by decide +kernel
  refine ⟨rfl, furthers_agedGate, leapFree_aging, by decide +kernel, hproceed, ?_⟩
  exact proceed_of_furthers agingJob agingGate agedGate rfl furthers_agedGate ⟨1705276800, 0⟩
    ⟨1705276801, 0⟩ (.inl (by decide)) rfl rfl leapFree_aging (.named "b") hproceed

end Job

end Rollout
