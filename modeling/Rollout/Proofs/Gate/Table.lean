import Rollout.Proofs.Feedstock
import Rollout.Proofs.Gate.Plan

namespace Rollout

-- A row of a decision table holds of the answers that it gives. Where it does not apply, it
-- gives none.
abbrev Row := Except Fault Verdict → Prop

def Row.given (condition : Prop) (verdict : Verdict) : Row :=
  fun answer => condition ∧ answer = .ok verdict

-- The answer of a table is that of the first row that applies.
inductive Decides : List Row → Except Fault Verdict → Prop where
  | here (row : Row) (rest : List Row) (answer : Except Fault Verdict) (hrow : row answer) :
      Decides (row :: rest) answer
  | later (row : Row) (rest : List Row) (answer : Except Fault Verdict)
      (hrow : ∀ other, ¬ row other) (hrest : Decides rest answer) : Decides (row :: rest) answer

theorem decides_cons_iff (row : Row) (rest : List Row) (answer : Except Fault Verdict) :
    Decides (row :: rest) answer ↔ row answer ∨ (∀ other, ¬ row other) ∧ Decides rest answer := by
  constructor
  · intro h
    cases h with
    | here _ _ _ hrow => exact .inl hrow
    | later _ _ _ hrow hrest => exact .inr ⟨hrow, hrest⟩
  · rintro (hrow | ⟨hrow, hrest⟩)
    · exact .here row rest answer hrow
    · exact .later row rest answer hrow hrest

theorem decides_given_cons_iff (condition : Prop) [Decidable condition] (verdict : Verdict)
    (rest : List Row) (answer : Except Fault Verdict) :
    Decides (.given condition verdict :: rest) answer ↔
      if condition then answer = .ok verdict else Decides rest answer := by
  rw [decides_cons_iff]
  split
  · rename_i h
    constructor
    · rintro (⟨-, he⟩ | ⟨hnone, -⟩)
      · exact he
      · exact absurd ⟨h, rfl⟩ (hnone (.ok verdict))
    · exact fun he => .inl ⟨h, he⟩
  · rename_i h
    constructor
    · rintro (⟨hc, -⟩ | ⟨-, hrest⟩)
      · exact absurd hc h
      · exact hrest
    · exact fun hrest => .inr ⟨fun _ hrow => h hrow.1, hrest⟩

-- A mark without a reason, or with one that has nothing to do with dependencies.
theorem Gate.blocks_tolerance_iff (standing : Standing) :
    standing.blocks Gate.tolerance = true ↔ standing = .flagged ∨
      ∃ text, standing = .reason text ∧ ¬ "Upstream:".toList <+: text.toList := by
  cases standing with
  | good => simp [Standing.blocks]
  | flagged => simp [Standing.blocks]
  | reason text =>
      simp only [Standing.blocks, Gate.tolerance, List.any_cons, List.any_nil, Bool.or_false,
        Bool.not_eq_true', ← Bool.not_eq_true, List.isPrefixOf_iff_prefix, reduceCtorEq, false_or,
        Standing.reason.injEq, exists_eq_left']

namespace Job

-- What rules a feedstock out whatever it depends on.
def screening (job : Job) (feedstock : Feedstock) : List Row :=
  [.given (feedstock.archived = true) (.skip .archived),
    .given (∃ attempt ∈ feedstock.attempts, attempt.data = (job.identity feedstock).toJson)
      (.skip .alreadyMigrated),
    .given (feedstock.standing = .flagged ∨
      ∃ text, feedstock.standing = .reason text ∧ ¬ "Upstream:".toList <+: text.toList) (.skip .bad),
    .given (feedstock.parsingError = true) (.skip .parsingError)]

theorem decides_screening {job : Job} (htolerance : job.tolerance = Gate.tolerance)
    (feedstock : Feedstock) (rest : List Row) (answer : Except Fault Verdict) :
    Decides (job.screening feedstock ++ rest) answer ↔ match job.screen feedstock with
      | some reason => answer = .ok (.skip reason)
      | none => Decides rest answer := by
  simp only [screening, List.cons_append, List.nil_append, ← Feedstock.isSome_find?_iff_exists,
    ← Gate.blocks_tolerance_iff, ← htolerance, decides_given_cons_iff, screen]
  split_ifs <;> rfl

end Job

namespace Gate

-- How a feedstock that nothing else rules out depends on what it waits for.
def waiting (gate : Gate) (identify : Feedstock → Identity) (now : Instant) (feedstock : Feedstock) :
    List Row :=
  let name := feedstock.feedstockName
  [.given (name ∉ gate.graph.names) (.skip .notInGraph),
    .given (name ∈ gate.topLevel ∨ name ∈ gate.cycles) .proceed,
    fun answer => ∃ dependency, gate.graph.FirstUnknown name dependency ∧
      answer = .error (.noPayload dependency),
    .given ((feedstock.name = gate.pinning ∨ name = gate.pinning) ∧
        ∀ dependency upstream, gate.Awaits name dependency upstream →
          ∃ attempt, upstream.FirstAttempt (identify upstream) attempt ∧
            (attempt.IsSettled ∨ ∃ created, attempt.createdAt? = some created ∧
              gate.window ≤ now.elapsed created))
      .proceed,
    .given (∃ dependency upstream, gate.Awaits name dependency upstream ∧
        ∀ attempt, upstream.FirstAttempt (identify upstream) attempt → ¬ attempt.IsSettled)
      (.skip .predecessorsNotBuilt),
    .given True .proceed]

theorem isPinning_eq_true_iff (gate : Gate) (feedstock : Feedstock) :
    gate.isPinning feedstock = true ↔
      feedstock.name = gate.pinning ∨ feedstock.feedstockName = gate.pinning := by
  simp [isPinning]

theorem all_isStale_iff {gate : Gate} {name : String} {waited : List Feedstock}
    (h : gate.gating name = .ok waited) (identify : Feedstock → Identity) (now : Instant) :
    waited.all (gate.isStale identify now) = true ↔
      ∀ dependency upstream, gate.Awaits name dependency upstream →
        ∃ attempt, upstream.FirstAttempt (identify upstream) attempt ∧
          (attempt.IsSettled ∨ ∃ created, attempt.createdAt? = some created ∧
            gate.window ≤ now.elapsed created) := by
  simp only [all_gating_iff h, isStale_eq_true_iff, Feedstock.find?_eq_some_iff_firstAttempt]

theorem any_isPending_iff {gate : Gate} {name : String} {waited : List Feedstock}
    (h : gate.gating name = .ok waited) (identify : Feedstock → Identity) :
    waited.any (isPending identify) = true ↔
      ∃ dependency upstream, gate.Awaits name dependency upstream ∧
        ∀ attempt, upstream.FirstAttempt (identify upstream) attempt → ¬ attempt.IsSettled := by
  rw [← Bool.not_eq_false, any_isPending_eq_false_iff h identify]
  simp only [Ready, Feedstock.find?_eq_some_iff_firstAttempt, not_forall, not_exists, not_and,
    exists_prop]

theorem decides_waiting (gate : Gate) (identify : Feedstock → Identity) (now : Instant)
    (feedstock : Feedstock) (answer : Except Fault Verdict) :
    Decides (gate.waiting identify now feedstock) answer ↔
      answer = gate.verdict identify now feedstock := by
  unfold waiting
  by_cases hm : feedstock.feedstockName ∈ gate.graph.names
  case neg => rw [decides_given_cons_iff, if_pos hm, verdict_of_not_mem identify now hm]
  rw [decides_given_cons_iff, if_neg (not_not_intro hm)]
  by_cases he : feedstock.feedstockName ∈ gate.topLevel ∨ feedstock.feedstockName ∈ gate.cycles
  case pos => rw [decides_given_cons_iff, if_pos he, verdict_of_exempt identify now hm he]
  rw [decides_given_cons_iff, if_neg he, decides_cons_iff]
  -- The row on unknown dependencies applies where the list of those waited for fails.
  cases hgating : gate.gating feedstock.feedstockName with
  | error fault =>
      obtain ⟨dependency, hfirst, rfl⟩ := (gate.gating_eq_error_iff _ _).mp hgating
      rw [verdict_of_gating_error identify now hm he hgating]
      constructor
      · rintro (⟨other, hother, rfl⟩ | ⟨hnone, -⟩)
        · rw [hother.unique hfirst]
        · exact absurd ⟨dependency, hfirst, rfl⟩ (hnone _)
      · exact fun ha => .inl ⟨dependency, hfirst, ha⟩
  | ok waited =>
      have hknown : ∀ dependency, ¬ gate.graph.FirstUnknown feedstock.feedstockName dependency := by
        intro dependency hfirst
        cases hgating.symm.trans ((gate.gating_eq_error_iff _ _).mpr ⟨dependency, hfirst, rfl⟩)
      rw [verdict_of_gating identify now hm he hgating, ← isPinning_eq_true_iff,
        ← all_isStale_iff hgating, ← any_isPending_iff hgating, ← Bool.and_eq_true]
      simp only [hknown, false_and, exists_false, false_or, not_false_eq_true, implies_true, true_and]
      rw [decides_given_cons_iff, decides_given_cons_iff, decides_given_cons_iff, if_pos True.intro]
      split_ifs <;> rfl

end Gate

namespace Job

-- What a job that waits for dependencies decides about a feedstock is the answer of the first
-- row that applies, whatever other rows apply as well.
theorem decision_table (job : Job) (gate : Gate) (hgate : job.gate? = some gate) (now : Instant)
    (feedstock : Feedstock) (answer : Except Fault Verdict) :
    job.verdict now feedstock = answer ↔
      Decides (job.screening feedstock ++ gate.waiting job.identity now feedstock) answer := by
  rw [verdict_of_gate? hgate, decides_screening (tolerance_of_gate? hgate)]
  cases job.screen feedstock with
  | some reason => exact eq_comm
  | none =>
      change gate.verdict job.identity now feedstock = answer ↔ Decides _ answer
      rw [gate.decides_waiting]
      exact eq_comm

-- Of the packages that `c` depends on nothing is known.
def dangling : Graph := ((Graph.empty.add "c" (.named "c")).connect "y" "c").connect "x" "c"

def danglingJob : Job := ⟨.ofVersion 0, .wave none (.ofGraph dangling)⟩

theorem decision_table_dangling :
    danglingJob.gate? = some (.ofGraph dangling) ∧
    Decides (danglingJob.screening (.named "c") ++
      (Gate.ofGraph dangling).waiting danglingJob.identity ⟨0, 0⟩ (.named "c"))
      (.error (.noPayload "x")) := by
  have hverdict : danglingJob.verdict ⟨0, 0⟩ (.named "c") = .error (.noPayload "x") := by
    decide +kernel
  exact ⟨rfl, (decision_table danglingJob _ rfl ⟨0, 0⟩ (.named "c") _).mp hverdict⟩

end Job

end Rollout
