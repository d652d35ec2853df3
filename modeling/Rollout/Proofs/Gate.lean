import Rollout.Gate
import Rollout.Proofs.Entries
import Rollout.Proofs.Graph.Paths

namespace Rollout

-- The pull request is known to be closed or merged.
def Attempt.IsSettled (attempt : Attempt) : Prop :=
  attempt.hosting.bind Hosting.state = some .closed ∨ attempt.hosting.bind Hosting.state = some .merged

theorem Attempt.isOpen_eq_false_iff (attempt : Attempt) :
    attempt.isOpen = false ↔ attempt.IsSettled := by
  unfold isOpen IsSettled
  cases attempt.hosting.bind Hosting.state with
  | none => simp
  | some state => cases state <;> simp

namespace Gate

theorem isPending_eq_false_iff (identify : Feedstock → Identity) (dependency : Feedstock) :
    isPending identify dependency = false ↔
      ∃ attempt, dependency.find? (identify dependency) = some attempt ∧ attempt.IsSettled := by
  unfold isPending
  cases dependency.find? (identify dependency) with
  | none => simp
  | some attempt => simp [attempt.isOpen_eq_false_iff]

-- The pull request is settled, or has been open for at least the window.
theorem isStale_eq_true_iff (gate : Gate) (identify : Feedstock → Identity) (now : Instant)
    (dependency : Feedstock) :
    gate.isStale identify now dependency = true ↔
      ∃ attempt, dependency.find? (identify dependency) = some attempt ∧
        (attempt.IsSettled ∨ ∃ created, attempt.createdAt? = some created ∧
          gate.window ≤ now.elapsed created) := by
  unfold isStale
  cases dependency.find? (identify dependency) with
  | none => simp
  | some attempt =>
      cases hc : attempt.createdAt? <;> simp [hc, attempt.isOpen_eq_false_iff]

-- What a feedstock waits for: a dependency that is neither archived nor ignored.
structure Awaits (gate : Gate) (name dependency : String) (upstream : Feedstock) : Prop where
  edge : gate.graph.Edge dependency name
  payload : gate.graph.payload? dependency = some upstream
  active : upstream.archived = false
  heeded : gate.ignores name dependency = false

theorem dependencies_eq_collect (gate : Gate) (name : String) :
    gate.dependencies name =
      Entries.collect gate.graph.payload (gate.graph.dependencies name).toList := rfl

theorem exists_gating_iff (gate : Gate) (name : String) :
    (∃ waited, gate.gating name = .ok waited) ↔
      ∀ dependency, gate.graph.Edge dependency name →
        ∃ upstream, gate.graph.payload? dependency = some upstream := by
  have hgating : (∃ waited, gate.gating name = .ok waited) ↔
      ∃ entries, gate.dependencies name = .ok entries := by
    unfold gating
    cases gate.dependencies name <;> simp [Except.map]
  rw [hgating, dependencies_eq_collect, Entries.exists_collect_iff]
  simp only [Std.ExtTreeSet.mem_toList, Graph.payload_eq_ok_iff]
  rfl

-- A dependency of which nothing is known counts even if it is ignored.
theorem gating_eq_error_iff (gate : Gate) (name : String) (fault : Fault) :
    gate.gating name = .error fault ↔
      ∃ dependency, gate.graph.FirstUnknown name dependency ∧ fault = .noPayload dependency := by
  have hgating : gate.gating name = .error fault ↔ gate.dependencies name = .error fault := by
    unfold gating
    cases gate.dependencies name <;> simp [Except.map]
  rw [hgating, dependencies_eq_collect, Entries.collect_eq_error_iff]
  simp only [Graph.payload_eq_error_iff, Graph.payload_eq_ok_iff, Graph.firstUnknown_iff_split]
  constructor
  · rintro ⟨before, dependency, after, hsplit, ⟨hunknown, hfault⟩, hbefore⟩
    exact ⟨dependency, ⟨before, after, hsplit, hunknown, hbefore⟩, hfault⟩
  · rintro ⟨dependency, ⟨before, after, hsplit, hunknown, hbefore⟩, hfault⟩
    exact ⟨before, dependency, after, hsplit, ⟨hunknown, hfault⟩, hbefore⟩

theorem mem_gating {gate : Gate} {name : String} {waited : List Feedstock}
    (h : gate.gating name = .ok waited) (upstream : Feedstock) :
    upstream ∈ waited ↔ ∃ dependency, gate.Awaits name dependency upstream := by
  unfold gating at h
  cases hentries : gate.dependencies name with
  | error fault => rw [hentries] at h; cases h
  | ok entries =>
      rw [hentries] at h
      cases h
      have hmem : ∀ dependency, (dependency, upstream) ∈ entries ↔
          gate.graph.Edge dependency name ∧ gate.graph.payload? dependency = some upstream := by
        intro dependency
        rw [Entries.mem_collect _ hentries, Std.ExtTreeSet.mem_toList, Graph.payload_eq_ok_iff]
        rfl
      simp only [List.mem_map, List.mem_filter, Bool.and_eq_true, Bool.not_eq_true']
      constructor
      · rintro ⟨⟨dependency, found⟩, ⟨he, ha, hi⟩, rfl⟩
        obtain ⟨hedge, hpayload⟩ := (hmem dependency).mp he
        exact ⟨dependency, hedge, hpayload, ha, hi⟩
      · rintro ⟨dependency, hedge, hpayload, ha, hi⟩
        exact ⟨(dependency, upstream), ⟨(hmem dependency).mpr ⟨hedge, hpayload⟩, ha, hi⟩, rfl⟩

section Waited

variable {gate : Gate} {name : String} {waited : List Feedstock} (h : gate.gating name = .ok waited)
include h

theorem all_gating_iff (test : Feedstock → Bool) :
    waited.all test = true ↔
      ∀ dependency upstream, gate.Awaits name dependency upstream → test upstream = true := by
  simp only [List.all_eq_true, mem_gating h]
  exact ⟨fun hw dependency upstream ha => hw upstream ⟨dependency, ha⟩,
    fun hs upstream ⟨dependency, ha⟩ => hs dependency upstream ha⟩

theorem any_gating_iff (test : Feedstock → Bool) :
    waited.any test = true ↔
      ∃ dependency upstream, gate.Awaits name dependency upstream ∧ test upstream = true := by
  simp only [List.any_eq_true, mem_gating h]
  exact ⟨fun ⟨upstream, ⟨dependency, ha⟩, ht⟩ => ⟨dependency, upstream, ha, ht⟩,
    fun ⟨dependency, upstream, ha, ht⟩ => ⟨upstream, ⟨dependency, ha⟩, ht⟩⟩

end Waited

-- Every dependency that a feedstock waits for has a closed or merged pull request.
def Ready (gate : Gate) (identify : Feedstock → Identity) (name : String) : Prop :=
  ∀ dependency upstream, gate.Awaits name dependency upstream →
    ∃ attempt, upstream.find? (identify upstream) = some attempt ∧ attempt.IsSettled

theorem any_isPending_eq_false_iff {gate : Gate} {name : String} {waited : List Feedstock}
    (h : gate.gating name = .ok waited) (identify : Feedstock → Identity) :
    waited.any (isPending identify) = false ↔ gate.Ready identify name := by
  rw [← Bool.not_eq_true, any_gating_iff h]
  simp only [not_exists, not_and, Bool.not_eq_true, isPending_eq_false_iff, Ready]

-- A feedstock that waits for nothing at all.
def Exempt (gate : Gate) (name : String) : Prop := name ∈ gate.topLevel ∨ name ∈ gate.cycles

theorem contains_eq_true_iff_exempt (gate : Gate) (name : String) :
    (gate.topLevel.contains name || gate.cycles.contains name) = true ↔ gate.Exempt name := by
  rw [Bool.or_eq_true, Std.ExtTreeSet.contains_iff_mem, Std.ExtTreeSet.contains_iff_mem, Exempt]

theorem verdict_of_not_mem {gate : Gate} {feedstock : Feedstock} (identify : Feedstock → Identity)
    (now : Instant) (hm : feedstock.feedstockName ∉ gate.graph.names) :
    gate.verdict identify now feedstock = .ok (.skip .notInGraph) := by
  rw [Graph.mem_names, Bool.not_eq_true] at hm
  simp [verdict, hm]

theorem verdict_of_exempt {gate : Gate} {feedstock : Feedstock} (identify : Feedstock → Identity)
    (now : Instant) (hm : feedstock.feedstockName ∈ gate.graph.names)
    (he : gate.Exempt feedstock.feedstockName) :
    gate.verdict identify now feedstock = .ok .proceed := by
  rw [Graph.mem_names] at hm
  simp [verdict, hm, (gate.contains_eq_true_iff_exempt _).mpr he]

section Gating

variable {gate : Gate} {feedstock : Feedstock} (identify : Feedstock → Identity) (now : Instant)
  (hm : feedstock.feedstockName ∈ gate.graph.names) (he : ¬ gate.Exempt feedstock.feedstockName)
include hm he

theorem verdict_of_gating_error {fault : Fault}
    (h : gate.gating feedstock.feedstockName = .error fault) :
    gate.verdict identify now feedstock = .error fault := by
  rw [Graph.mem_names] at hm
  rw [← contains_eq_true_iff_exempt, Bool.not_eq_true] at he
  simp only [verdict, hm, he, issuedAndStale, notYetBuilt, h]
  cases gate.isPinning feedstock <;> rfl

-- Only the pinning feedstock may go ahead of dependencies that are not settled.
theorem verdict_of_gating {waited : List Feedstock}
    (h : gate.gating feedstock.feedstockName = .ok waited) :
    gate.verdict identify now feedstock =
      .ok (if gate.isPinning feedstock && waited.all (gate.isStale identify now) then .proceed
        else if waited.any (isPending identify) then .skip .predecessorsNotBuilt else .proceed) := by
  rw [Graph.mem_names] at hm
  rw [← contains_eq_true_iff_exempt, Bool.not_eq_true] at he
  simp only [verdict, hm, he, issuedAndStale, notYetBuilt, h]
  cases gate.isPinning feedstock with
  | false => rfl
  | true => cases hstale : waited.all (gate.isStale identify now) <;> simp [Except.map, hstale] <;> rfl

end Gating

-- A feedstock of the graph either goes ahead or waits for dependencies.
theorem verdict_of_known {gate : Gate} {feedstock : Feedstock} (identify : Feedstock → Identity)
    (now : Instant) (hm : feedstock.feedstockName ∈ gate.graph.names)
    (hknown : ∀ dependency, gate.graph.Edge dependency feedstock.feedstockName →
      ∃ upstream, gate.graph.payload? dependency = some upstream) :
    gate.verdict identify now feedstock = .ok .proceed ∨
      gate.verdict identify now feedstock = .ok (.skip .predecessorsNotBuilt) := by
  by_cases he : gate.Exempt feedstock.feedstockName
  · exact .inl (verdict_of_exempt identify now hm he)
  · obtain ⟨waited, hwaited⟩ := (gate.exists_gating_iff _).mpr hknown
    rw [verdict_of_gating identify now hm he hwaited]
    split
    · exact .inl rfl
    · split
      · exact .inr rfl
      · exact .inl rfl

-- A verdict fails only for a feedstock that has to wait, over the first of its dependencies of
-- which nothing is known.
theorem verdict_eq_error_iff (gate : Gate) (identify : Feedstock → Identity) (now : Instant)
    (feedstock : Feedstock) (fault : Fault) :
    gate.verdict identify now feedstock = .error fault ↔
      feedstock.feedstockName ∈ gate.graph.names ∧ ¬ gate.Exempt feedstock.feedstockName ∧
        ∃ dependency, gate.graph.FirstUnknown feedstock.feedstockName dependency ∧
          fault = .noPayload dependency := by
  constructor
  · intro h
    by_cases hm : feedstock.feedstockName ∈ gate.graph.names
    · by_cases he : gate.Exempt feedstock.feedstockName
      · cases h.symm.trans (verdict_of_exempt identify now hm he)
      · refine ⟨hm, he, ?_⟩
        cases hgating : gate.gating feedstock.feedstockName with
        | ok waited => cases h.symm.trans (verdict_of_gating identify now hm he hgating)
        | error other =>
            rw [verdict_of_gating_error identify now hm he hgating] at h
            cases h
            exact (gate.gating_eq_error_iff _ _).mp hgating
    · cases h.symm.trans (verdict_of_not_mem identify now hm)
  · rintro ⟨hm, he, hunknown⟩
    exact verdict_of_gating_error identify now hm he ((gate.gating_eq_error_iff _ _).mpr hunknown)

-- Every dependency that a feedstock waits for has been attempted, and nobody is looking after
-- it any more.
def Aged (gate : Gate) (identify : Feedstock → Identity) (now : Instant) (name : String) : Prop :=
  ∀ dependency upstream, gate.Awaits name dependency upstream →
    gate.isStale identify now upstream = true

-- A settled pull request is stale at any time.
theorem isStale_of_isPending (gate : Gate) {identify : Feedstock → Identity} (now : Instant)
    {dependency : Feedstock} (h : isPending identify dependency = false) :
    gate.isStale identify now dependency = true := by
  obtain ⟨attempt, hf, hs⟩ := (isPending_eq_false_iff ..).mp h
  exact (isStale_eq_true_iff ..).mpr ⟨attempt, hf, .inl hs⟩

theorem Ready.aged {gate : Gate} {identify : Feedstock → Identity} {name : String}
    (h : gate.Ready identify name) (now : Instant) : gate.Aged identify now name := by
  intro dependency upstream ha
  exact gate.isStale_of_isPending now ((isPending_eq_false_iff ..).mpr (h dependency upstream ha))

-- The exempt feedstocks go ahead, and of the others, with everything known, those that are ready
-- and the pinning feedstock once its dependencies have aged.
theorem verdict_eq_proceed_iff (gate : Gate) (identify : Feedstock → Identity) (now : Instant)
    (feedstock : Feedstock) :
    gate.verdict identify now feedstock = .ok .proceed ↔
      feedstock.feedstockName ∈ gate.graph.names ∧ (gate.Exempt feedstock.feedstockName ∨
        (∀ dependency, gate.graph.Edge dependency feedstock.feedstockName →
          ∃ upstream, gate.graph.payload? dependency = some upstream) ∧
        (gate.isPinning feedstock = true ∧ gate.Aged identify now feedstock.feedstockName ∨
          gate.Ready identify feedstock.feedstockName)) := by
  by_cases hm : feedstock.feedstockName ∈ gate.graph.names
  case neg => simp [verdict_of_not_mem identify now hm, hm]
  by_cases he : gate.Exempt feedstock.feedstockName
  case pos => simp [verdict_of_exempt identify now hm he, hm, he]
  rw [← exists_gating_iff]
  cases hwaited : gate.gating feedstock.feedstockName with
  | error fault => simp [verdict_of_gating_error identify now hm he hwaited, he]
  | ok waited =>
      rw [verdict_of_gating identify now hm he hwaited, Aged, ← all_gating_iff hwaited,
        ← any_isPending_eq_false_iff hwaited]
      cases gate.isPinning feedstock <;> cases waited.all (gate.isStale identify now) <;>
        cases waited.any (isPending identify) <;> simp [hm, he]

-- A ready feedstock goes ahead. The pinning feedstock may do so even earlier.
theorem verdict_of_ready {gate : Gate} {feedstock : Feedstock} (identify : Feedstock → Identity)
    (now : Instant) (hm : feedstock.feedstockName ∈ gate.graph.names)
    (hknown : ∀ dependency, gate.graph.Edge dependency feedstock.feedstockName →
      ∃ upstream, gate.graph.payload? dependency = some upstream)
    (hready : gate.Ready identify feedstock.feedstockName) :
    gate.verdict identify now feedstock = .ok .proceed :=
  (gate.verdict_eq_proceed_iff ..).mpr ⟨hm, .inr ⟨hknown, .inr hready⟩⟩

-- Apart from the exempt feedstocks and the pinning one, only ready feedstocks go ahead.
theorem ready_of_verdict {gate : Gate} {feedstock : Feedstock} {identify : Feedstock → Identity}
    {now : Instant} (h : gate.verdict identify now feedstock = .ok .proceed)
    (he : ¬ gate.Exempt feedstock.feedstockName) (hp : gate.isPinning feedstock = false) :
    gate.Ready identify feedstock.feedstockName := by
  obtain ⟨-, hexempt | ⟨-, ⟨hpinning, -⟩ | hready⟩⟩ := (gate.verdict_eq_proceed_iff ..).mp h
  · exact absurd hexempt he
  · cases hp.symm.trans hpinning
  · exact hready

-- A dependency that is waited for and has nothing on record lets nobody past who is not exempt.
theorem not_proceed_of_find?_eq_none {gate : Gate} {identify : Feedstock → Identity} {now : Instant}
    {feedstock upstream : Feedstock} {dependency : String}
    (he : ¬ gate.Exempt feedstock.feedstockName)
    (ha : gate.Awaits feedstock.feedstockName dependency upstream)
    (hf : upstream.find? (identify upstream) = none) :
    gate.verdict identify now feedstock ≠ .ok .proceed := by
  intro hproceed
  obtain ⟨-, hexempt | ⟨-, ⟨-, haged⟩ | hready⟩⟩ := (gate.verdict_eq_proceed_iff ..).mp hproceed
  · exact he hexempt
  · obtain ⟨attempt, hattempt, -⟩ := (isStale_eq_true_iff ..).mp (haged dependency upstream ha)
    cases hf.symm.trans hattempt
  · obtain ⟨attempt, hattempt, -⟩ := hready dependency upstream ha
    cases hf.symm.trans hattempt

end Gate

end Rollout
