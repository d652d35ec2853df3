import Rollout.Proofs.Gate.Progress
import Rollout.Proofs.Wave

namespace Rollout.Wave

-- What still has to be migrated: neither archived nor with the job's identity on record.
def remaining (wave : Wave) (graph : Graph) : List String := graph.remaining wave.identity

theorem mem_remaining (wave : Wave) (graph : Graph) (name : String) :
    name ∈ wave.remaining graph ↔ ∃ feedstock, graph.payload? name = some feedstock ∧
      feedstock.archived = false ∧ feedstock.find? (wave.identity feedstock) = none :=
  graph.mem_remaining wave.identity name

theorem nodup_remaining (wave : Wave) (graph : Graph) : (wave.remaining graph).Nodup :=
  graph.nodup_names.filter _

-- What a rollout needs to go through: every cycle of the graph passes through a declared
-- name, nothing rules out a feedstock that remains, and every pull request is settled.
structure Workable (wave : Wave) (graph : Graph) : Prop where
  named : Named graph
  declared : ∀ first rest, graph.Cycle first rest →
    ∃ name ∈ first :: rest, name ∈ wave.topLevel ∨ name ∈ wave.cycles
  sound : ∀ name feedstock, graph.payload? name = some feedstock → feedstock.archived = false →
    feedstock.find? (wave.identity feedstock) = none →
    feedstock.parsingError = false ∧ feedstock.standing.blocks Gate.tolerance = false
  settled : ∀ name feedstock, graph.payload? name = some feedstock →
    ∀ attempt ∈ feedstock.attempts,
      attempt.matchesIdentity (wave.identity feedstock) = true → attempt.IsSettled

section Workable

variable {wave : Wave} {graph : Graph} (h : wave.Workable graph)
include h

theorem Workable.exists_unblocked (hne : wave.remaining graph ≠ []) :
    ∃ name ∈ wave.remaining graph, (wave.gate graph).Exempt name ∨
      ∀ dependency ∈ wave.remaining graph, ¬ graph.Edge dependency name := by
  by_cases hfree : ∃ name ∈ graph.remaining wave.identity, graph.Unblocked wave.identity name
  · obtain ⟨name, hm, hfree⟩ := hfree
    exact ⟨name, hm, .inr hfree⟩
  -- A cycle runs through what remains, and a declared name on it waits for nothing at all.
  · obtain ⟨first, rest, hcycle, hsub⟩ := Graph.exists_cycle_of_blocked hne hfree
    obtain ⟨name, hm, hdeclared⟩ := h.declared first rest hcycle
    exact ⟨name, hsub name hm, .inl hdeclared⟩

theorem Workable.clear : graph.Clear wave.identity := ⟨h.sound, h.settled⟩

theorem Workable.verdict_of_unblocked (now : Instant) {name : String} {feedstock : Feedstock}
    (hp : graph.payload? name = some feedstock)
    (hfree : (wave.gate graph).Exempt name ∨
      ∀ dependency ∈ wave.remaining graph, ¬ graph.Edge dependency name) :
    (wave.gate graph).verdict wave.identity now feedstock = .ok .proceed := by
  have hm := Graph.mem_names_of_payload? hp
  obtain rfl := feedstockName_of_named h.named hp
  rcases hfree with he | hfree
  · exact Gate.verdict_of_exempt wave.identity now hm he
  · exact Gate.verdict_of_ready wave.identity now hm (fun _ => payload?_of_edge h.named)
      (Gate.ready_of_unblocked h.clear hfree)

theorem Workable.order_ne_nil {now : Instant} {plan : Plan}
    (hplan : (wave.job graph).plan now graph = .ok plan) (hne : wave.remaining graph ≠ []) :
    plan.order ≠ [] := by
  obtain ⟨name, hm, hfree⟩ := h.exists_unblocked hne
  obtain ⟨feedstock, hp, ha, hf⟩ := (wave.mem_remaining graph name).mp hm
  obtain ⟨hparsing, hblocks⟩ := h.sound name feedstock hp ha hf
  have hscreen : (wave.job graph).screen feedstock = none :=
    (Job.screen_eq_none_iff _ _).mpr ⟨ha, hf, hblocks, hparsing⟩
  have horder : name ∈ plan.order :=
    (mem_order_iff hplan name).mpr ⟨feedstock, hp, hscreen, h.verdict_of_unblocked now hp hfree⟩
  exact List.ne_nil_of_mem horder

end Workable

theorem order_subset_remaining {wave : Wave} {graph : Graph} {now : Instant} {plan : Plan}
    (hplan : (wave.job graph).plan now graph = .ok plan) {name : String} (hm : name ∈ plan.order) :
    name ∈ wave.remaining graph := by
  obtain ⟨feedstock, hp, hscreen, -⟩ := (mem_order_iff hplan name).mp hm
  obtain ⟨ha, hf, -⟩ := (Job.screen_eq_none_iff _ _).mp hscreen
  exact (wave.mem_remaining graph name).mpr ⟨feedstock, hp, ha, hf⟩

theorem Workable.batch_ne_nil_iff {wave : Wave} {graph : Graph} (h : wave.Workable graph)
    {now : Instant} {plan : Plan} (hplan : (wave.job graph).plan now graph = .ok plan) :
    plan.batch ≠ [] ↔ wave.remaining graph ≠ [] := by
  rw [ne_eq, plan.batch_eq_nil_iff]
  constructor
  · intro hne
    obtain ⟨name, hm⟩ := List.exists_mem_of_ne_nil _ hne
    exact List.ne_nil_of_mem (order_subset_remaining hplan hm)
  · exact h.order_ne_nil hplan

structure Round where
  now : Instant
  hosting : String → Option Hosting

def Round.posts (round : Round) (batch : List String) : List (String × Option Hosting) :=
  batch.map fun name => (name, Hosting.withState .merged (round.hosting name))

-- One round of a rollout: the whole batch is migrated and merged.
def advance (wave : Wave) (graph : Graph) (round : Round) : Except Fault Graph :=
  ((wave.job graph).plan round.now graph).map fun plan =>
    graph.recordAll wave.identity (round.posts plan.batch)

theorem Workable.record {wave : Wave} {graph : Graph} (h : wave.Workable graph) (name : String)
    (hosting : Option Hosting) :
    wave.Workable (graph.record wave.identity name (Hosting.withState .merged hosting)) := by
  refine ⟨named_revise (fun _ _ => rfl) h.named, ?_, ?_, ?_⟩
  · intro first rest hc
    exact h.declared first rest ((graph.cycle_revise name _ first rest).mp hc)
  · intro other after hp ha hf
    obtain ⟨before, hb, ⟨rfl, rfl⟩ | ⟨-, rfl⟩⟩ := Graph.exists_of_payload?_revise hp
    · rw [Feedstock.find?_attempted, Option.or_eq_none_iff] at hf
      exact h.sound name before hb ha hf.1
    · exact h.sound other after hb ha hf
  · intro other after hp attempt hm hmatches
    obtain ⟨before, hb, ⟨rfl, rfl⟩ | ⟨-, rfl⟩⟩ := Graph.exists_of_payload?_revise hp
    · rcases List.mem_append.mp hm with hold | hnew
      · exact h.settled name before hb attempt hold hmatches
      · obtain rfl := List.mem_singleton.mp hnew
        exact .inr rfl
    · exact h.settled other after hb attempt hm hmatches

theorem mem_remaining_record (wave : Wave) (graph : Graph) (name other : String)
    (hosting : Option Hosting) :
    other ∈ wave.remaining (graph.record wave.identity name hosting) ↔
      other ∈ wave.remaining graph ∧ other ≠ name := by
  rw [mem_remaining, mem_remaining]
  constructor
  · rintro ⟨after, hp, ha, hf⟩
    obtain ⟨before, hb, ⟨rfl, rfl⟩ | ⟨hne, rfl⟩⟩ := Graph.exists_of_payload?_revise hp
    · exact absurd hf (before.find?_attempted_ofIdentity_ne_none _ hosting)
    · exact ⟨⟨after, hb, ha, hf⟩, Ne.symm hne⟩
  · rintro ⟨⟨feedstock, hp, ha, hf⟩, hne⟩
    refine ⟨feedstock, ?_, ha, hf⟩
    rw [Graph.record, Graph.payload?_revise, if_neg (Ne.symm hne), hp]

theorem Workable.recordAll {wave : Wave} (round : Round) (batch : List String) {graph : Graph}
    (h : wave.Workable graph) :
    wave.Workable (graph.recordAll wave.identity (round.posts batch)) := by
  induction batch generalizing graph with
  | nil => exact h
  | cons name batch ih => exact ih (h.record name (round.hosting name))

theorem mem_remaining_recordAll (wave : Wave) (round : Round) (batch : List String) (graph : Graph)
    (other : String) :
    other ∈ wave.remaining (graph.recordAll wave.identity (round.posts batch)) ↔
      other ∈ wave.remaining graph ∧ other ∉ batch := by
  induction batch generalizing graph with
  | nil => simp [Round.posts, Graph.recordAll]
  | cons name batch ih =>
      have hcons : graph.recordAll wave.identity (round.posts (name :: batch)) =
          (graph.record wave.identity name (Hosting.withState .merged (round.hosting name))).recordAll
            wave.identity (round.posts batch) := rfl
      rw [hcons, ih, mem_remaining_record, List.mem_cons, not_or, and_assoc]

theorem Workable.advance {wave : Wave} {graph : Graph} (h : wave.Workable graph) (round : Round) :
    ∃ next, wave.advance graph round = .ok next ∧ wave.Workable next ∧
      (wave.remaining next).length ≤ (wave.remaining graph).length - 1 := by
  obtain ⟨plan, hplan⟩ := wave.exists_plan h.named round.now
  refine ⟨_, by rw [Wave.advance, hplan]; rfl, h.recordAll round plan.batch, ?_⟩
  have hmem := wave.mem_remaining_recordAll round plan.batch graph
  by_cases hne : wave.remaining graph = []
  · have hnext : wave.remaining (graph.recordAll wave.identity (round.posts plan.batch)) = [] := by
      refine List.eq_nil_iff_forall_not_mem.mpr fun name hm => ?_
      rw [hmem, hne] at hm
      exact List.not_mem_nil hm.1
    rw [hnext]
    exact Nat.zero_le _
  · obtain ⟨name, hbatch⟩ := List.exists_mem_of_ne_nil _ ((h.batch_ne_nil_iff hplan).mpr hne)
    have hremains := order_subset_remaining hplan (plan.batch_subset hbatch)
    -- One name of the batch no longer remains, and nothing new does.
    have hsub : wave.remaining (graph.recordAll wave.identity (round.posts plan.batch)) ⊆
        (wave.remaining graph).erase name := by
      intro other hm
      obtain ⟨ho, hout⟩ := (hmem other).mp hm
      have hother : other ≠ name := fun he => hout (he.symm ▸ hbatch)
      exact (List.mem_erase_of_ne hother).mpr ho
    have hle := (List.subperm_of_subset (wave.nodup_remaining _) hsub).length_le
    rwa [List.length_erase_of_mem hremains] at hle

theorem Workable.run {wave : Wave} (rounds : List Round) {graph : Graph} (h : wave.Workable graph)
    (hlength : (wave.remaining graph).length ≤ rounds.length) :
    ∃ final, rounds.foldlM wave.advance graph = .ok final ∧ wave.remaining final = [] := by
  induction rounds generalizing graph with
  | nil => exact ⟨graph, rfl, List.length_eq_zero_iff.mp (Nat.le_zero.mp hlength)⟩
  | cons round rounds ih =>
      obtain ⟨next, hnext, hworkable, hdrop⟩ := h.advance round
      simp only [List.length_cons] at hlength
      obtain ⟨final, hfinal, hdone⟩ := ih hworkable (by omega)
      refine ⟨final, ?_, hdone⟩
      rw [List.foldlM_cons, hnext]
      exact hfinal

-- A workable rollout never stalls. Planning succeeds and finds something to do just while
-- something remains, and as many rounds as there is left to migrate migrate all of it.
theorem rollout_completes (wave : Wave) (graph : Graph) (h : wave.Workable graph) :
    (∀ now, ∃ plan, (wave.job graph).plan now graph = .ok plan ∧
      (plan.batch ≠ [] ↔ wave.remaining graph ≠ [])) ∧
    ∀ rounds : List Round, (wave.remaining graph).length ≤ rounds.length →
      ∃ final, rounds.foldlM wave.advance graph = .ok final ∧ wave.remaining final = [] := by
  refine ⟨fun now => ?_, fun rounds hlength => h.run rounds hlength⟩
  obtain ⟨plan, hplan⟩ := wave.exists_plan h.named now
  exact ⟨plan, hplan, h.batch_ne_nil_iff hplan⟩

-- `a` and `b` depend on each other. The cycle is declared at `a`.
def knot : Graph :=
  (((Graph.empty.add "a" (.named "a")).add "b" (.named "b")).connect "a" "b").connect "b" "a"

def knotted : Wave := { plain with cycles := NameSet.ofList ["a"] }

theorem payload?_knot {name : String} {feedstock : Feedstock}
    (hp : knot.payload? name = some feedstock) : feedstock = .named name := by
  simp only [knot, Graph.payload?_connect, Graph.payload?_add] at hp
  split at hp
  · rename_i he
    exact he ▸ (Option.some.inj hp).symm
  · split at hp
    · rename_i he
      exact he ▸ (Option.some.inj hp).symm
    · cases hp

theorem workable_knot : knotted.Workable knot := by
  refine ⟨by decide, ?_, ?_, ?_⟩
  · intro first rest hc
    have hedges : ∀ source ∈ knot.names, ∀ target ∈ knot.names,
        knot.Edge source target → source = "a" ∨ target = "a" := by decide
    have hcycles : "a" ∈ knotted.cycles := by decide
    cases rest with
    | nil =>
        have he : knot.Edge first first := (List.isChain_cons_cons.mp hc.chain).1
        rcases hedges first he.source_mem first he.target_mem he with rfl | rfl <;>
          exact ⟨"a", List.mem_cons_self, .inr hcycles⟩
    | cons next rest =>
        have he : knot.Edge first next := (List.isChain_cons_cons.mp hc.chain).1
        rcases hedges first he.source_mem next he.target_mem he with rfl | rfl
        · exact ⟨"a", List.mem_cons_self, .inr hcycles⟩
        · exact ⟨"a", List.mem_cons_of_mem _ List.mem_cons_self, .inr hcycles⟩
  · intro name feedstock hp _ _
    rw [payload?_knot hp]
    exact ⟨rfl, rfl⟩
  · intro name feedstock hp attempt hm
    rw [payload?_knot hp] at hm
    cases hm

def twoRounds : List Round := [⟨⟨0, 0⟩, fun _ => none⟩, ⟨⟨1, 0⟩, fun _ => none⟩]

theorem rollout_completes_knot :
    knotted.Workable knot ∧ knotted.remaining knot = ["a", "b"] ∧
    (∀ now, ∃ plan, (knotted.job knot).plan now knot = .ok plan ∧
      (plan.batch ≠ [] ↔ knotted.remaining knot ≠ [])) ∧
    ∃ final, twoRounds.foldlM knotted.advance knot = .ok final ∧ knotted.remaining final = [] := by
  obtain ⟨hplan, hrounds⟩ := rollout_completes knotted knot workable_knot
  exact ⟨workable_knot, by decide, hplan, hrounds twoRounds (by decide)⟩

end Rollout.Wave
