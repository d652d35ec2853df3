import Rollout.Proofs.Graph.Prune

namespace Rollout

-- A way of at least one step. All names between its ends are inner ones.
inductive Via (step : String → String → Prop) (inner : String → Prop) : String → String → Prop where
  | single {source target : String} (h : step source target) : Via step inner source target
  | tail {source last target : String} (hway : Via step inner source last) (hinner : inner last)
      (h : step last target) : Via step inner source target

namespace Via

variable {step other : String → String → Prop} {inner within : String → Prop}
  {source target : String}

-- An inner name is left by a step, which may say more about it.
theorem mono (hway : Via step inner source target) (hstep : ∀ a b, step a b → other a b)
    (hinner : ∀ a b, inner a → step a b → within a) : Via other within source target := by
  induction hway with
  | single h => exact .single (hstep _ _ h)
  | tail _ hi h ih => exact .tail ih (hinner _ _ hi h) (hstep _ _ h)

theorem exists_first (hway : Via step inner source target) : ∃ first, step source first := by
  induction hway with
  | single h => exact ⟨_, h⟩
  | tail _ _ _ ih => exact ih

theorem exists_last (hway : Via step inner source target) : ∃ last, step last target := by
  cases hway with
  | single h => exact ⟨_, h⟩
  | tail _ _ h => exact ⟨_, h⟩

-- Inner names that are never left are not passed through.
theorem step_of_closed (hway : Via step inner source target)
    (hclosed : ∀ a b, inner a → step a b → inner b) (ht : ¬ inner target) : step source target := by
  cases hway with
  | single h => exact h
  | tail _ hi h => exact absurd (hclosed _ _ hi h) ht

-- Where a condition passes from the end of a step to its start, it holds all along the way.
theorem restrict (hway : Via step inner source target) {keep : String → Prop}
    (hkeep : ∀ a b, step a b → keep b → keep a) (ht : keep target) :
    Via (fun a b => step a b ∧ keep a ∧ keep b) inner source target := by
  induction hway with
  | single h => exact .single ⟨h, hkeep _ _ h ht, ht⟩
  | tail _ hi h ih =>
      have hl := hkeep _ _ h ht
      exact .tail (ih hl) hi ⟨h, hl, ht⟩

-- Loops on the way can be left out.
theorem without_loops (hway : Via step inner source target) (hne : source ≠ target) :
    Via (fun a b => step a b ∧ a ≠ b) inner source target := by
  induction hway with
  | single h => exact .single ⟨h, hne⟩
  | @tail last target _ hi h ih =>
      by_cases hs : source = last
      · subst hs
        exact .single ⟨h, hne⟩
      · by_cases ht : last = target
        · exact ht ▸ ih hs
        · exact .tail (ih hs) hi ⟨h, ht⟩

end Via

-- One name taken out: what stepped to it now steps to what it stepped to.
def Bypass (step : String → String → Prop) (name source target : String) : Prop :=
  source ≠ name ∧ target ≠ name ∧ (step source target ∨ step source name ∧ step name target)

section Bypass

variable (step : String → String → Prop) (inner : String → Prop) (name : String)

theorem Via.of_bypass {source target : String} (hway : Via (Bypass step name) inner source target) :
    source ≠ name ∧ target ≠ name ∧ Via step (fun n => n = name ∨ inner n) source target := by
  induction hway with
  | single h =>
      obtain ⟨hs, ht, h | ⟨hin, hout⟩⟩ := h
      · exact ⟨hs, ht, .single h⟩
      · exact ⟨hs, ht, .tail (.single hin) (.inl rfl) hout⟩
  | tail _ hi h ih =>
      obtain ⟨hs, -, hway⟩ := ih
      obtain ⟨-, ht, h | ⟨hin, hout⟩⟩ := h
      · exact ⟨hs, ht, .tail hway (.inr hi) h⟩
      · exact ⟨hs, ht, .tail (.tail hway (.inr hi) hin) (.inl rfl) hout⟩

-- A way has to enter the name from another one before it goes on, so the last name before it
-- is kept while the way stays there.
theorem Via.bypass {source target : String}
    (hway : Via step (fun n => n = name ∨ inner n) source target) (hs : source ≠ name) :
    (target ≠ name → Via (Bypass step name) inner source target) ∧
      (target = name → ∃ last, last ≠ name ∧ step last name ∧
        (last = source ∨ inner last ∧ Via (Bypass step name) inner source last)) := by
  induction hway with
  | single h => exact ⟨fun ht => .single ⟨hs, ht, .inl h⟩, fun ht => ⟨_, hs, ht ▸ h, .inl rfl⟩⟩
  | @tail last target _ hi h ih =>
      by_cases hl : last = name
      · subst hl
        obtain ⟨before, hb, hin, hfrom⟩ := ih.2 rfl
        refine ⟨fun ht => ?_, fun _ => ⟨before, hb, hin, hfrom⟩⟩
        rcases hfrom with rfl | ⟨hinner, hway⟩
        · exact .single ⟨hb, ht, .inr ⟨hin, h⟩⟩
        · exact .tail hway hinner ⟨hb, ht, .inr ⟨hin, h⟩⟩
      · have hinner := hi.resolve_left hl
        exact ⟨fun ht => .tail (ih.1 hl) hinner ⟨hl, ht, .inl h⟩,
          fun ht => ⟨last, hl, ht ▸ h, .inr ⟨hinner, ih.1 hl⟩⟩⟩

theorem via_bypass_iff (source target : String) :
    Via (Bypass step name) inner source target ↔
      source ≠ name ∧ target ≠ name ∧ Via step (fun n => n = name ∨ inner n) source target :=
  ⟨Via.of_bypass step inner name, fun ⟨hs, ht, hway⟩ => (Via.bypass step inner name hway hs).1 ht⟩

end Bypass

namespace Graph

theorem edge_connectAll (sources targets : List String) (graph : Graph) (a b : String) :
    (sources.foldl (fun rest source =>
      targets.foldl (fun rest target => rest.connect source target) rest) graph).Edge a b ↔
      graph.Edge a b ∨ a ∈ sources ∧ b ∈ targets := by
  rw [edge_foldl_iff _ fun source a b => a = source ∧ b ∈ targets]
  · simp
  · intro rest source a b
    rw [edge_foldl_iff _ _ (fun rest target => rest.edge_connect source target)]
    simp [and_comm]

-- Plucking a name joins every edge to it with every edge from it.
theorem edge_pluck (graph : Graph) (name a b : String) :
    (graph.pluck name).Edge a b ↔ Bypass graph.Edge name a b := by
  unfold pluck Bypass
  split
  · simp only [edge_connectAll, edge_remove, List.mem_filter, Std.ExtTreeSet.mem_toList,
      mem_dependencies_iff_edge, mem_dependents_iff_edge, bne_iff_ne]
    tauto
  · rename_i habsent
    rw [← mem_names] at habsent
    constructor
    · intro he
      exact ⟨fun ha => habsent (ha ▸ he.source_mem), fun hb => habsent (hb ▸ he.target_mem), .inl he⟩
    · rintro ⟨-, -, he | ⟨he, -⟩⟩
      · exact he
      · exact absurd he.target_mem habsent

-- Plucking names one after another leaves the ways through them, in whatever order they go.
theorem edge_pluckAll (names : List String) (graph : Graph) (a b : String) :
    (graph.pluckAll names).Edge a b ↔ a ∉ names ∧ b ∉ names ∧ Via graph.Edge (· ∈ names) a b := by
  induction names generalizing graph with
  | nil =>
      simp only [pluckAll, List.foldl_nil, List.not_mem_nil, not_false_eq_true, true_and]
      refine ⟨.single, fun hway => ?_⟩
      cases hway with
      | single h => exact h
      | tail _ hi _ => cases hi
  | cons name names ih =>
      have hpluck : (graph.pluck name).Edge = Bypass graph.Edge name := by
        funext a b
        exact propext (graph.edge_pluck name a b)
      change ((graph.pluck name).pluckAll names).Edge a b ↔ _
      rw [ih, hpluck, via_bypass_iff]
      simp only [List.mem_cons, not_or]
      tauto

theorem payload?_pluckAll_eq_some_iff (graph : Graph) (names : List String) (name : String)
    (feedstock : Feedstock) :
    (graph.pluckAll names).payload? name = some feedstock ↔
      graph.payload? name = some feedstock ∧ name ∉ names := by
  by_cases hm : name ∈ names
  · have hout : name ∉ (graph.pluckAll names).names :=
      fun hn => ((mem_names_pluckAll names graph name).mp hn).2 hm
    simp [payload?_eq_none_of_not_mem hout, hm]
  · rw [payload?_pluckAll names graph hm]
    exact ⟨fun hp => ⟨hp, hm⟩, And.left⟩

section Idle

variable (graph : Graph) (ignored : NameSet)

theorem isIdle_eq_false_iff (name : String) :
    graph.isIdle ignored name = false ↔ ∃ feedstock, graph.payload? name = some feedstock ∧
      isStubby name = false ∧ name ∉ ignored ∧ feedstock.allNoarch = false := by
  unfold isIdle
  cases graph.payload? name with
  | none => simp
  | some feedstock =>
      simp [← Bool.not_eq_true, Std.ExtTreeSet.contains_iff_mem, and_assoc]

theorem mem_names_dropIdle (name : String) :
    name ∈ (graph.dropIdle ignored).names ↔ graph.isIdle ignored name = false := by
  rw [dropIdle, mem_names_removeLoops, mem_names_pluckAll, List.mem_filter, not_and, Bool.not_eq_true]
  refine ⟨fun h => h.2 h.1, fun hbusy => ⟨?_, fun _ => hbusy⟩⟩
  obtain ⟨feedstock, hp, -⟩ := (graph.isIdle_eq_false_iff ignored name).mp hbusy
  exact mem_names_of_payload? hp

theorem payload?_dropIdle_eq_some_iff (name : String) (feedstock : Feedstock) :
    (graph.dropIdle ignored).payload? name = some feedstock ↔
      name ∈ (graph.dropIdle ignored).names ∧ graph.payload? name = some feedstock := by
  rw [mem_names_dropIdle, dropIdle, payload?_removeLoops, payload?_pluckAll_eq_some_iff,
    List.mem_filter, not_and, Bool.not_eq_true]
  constructor
  · exact fun ⟨hp, hbusy⟩ => ⟨hbusy (mem_names_of_payload? hp), hp⟩
  · exact fun ⟨hbusy, hp⟩ => ⟨hp, fun _ => hbusy⟩

theorem edge_dropIdle (a b : String) :
    (graph.dropIdle ignored).Edge a b ↔ graph.isIdle ignored a = false ∧
      graph.isIdle ignored b = false ∧ a ≠ b ∧ Via graph.Edge (graph.isIdle ignored · = true) a b := by
  rw [dropIdle, edge_removeLoops, edge_pluckAll]
  simp only [List.mem_filter, not_and, Bool.not_eq_true]
  constructor
  · rintro ⟨⟨ha, hb, hway⟩, hne⟩
    obtain ⟨first, hfirst⟩ := hway.exists_first
    obtain ⟨last, hlast⟩ := hway.exists_last
    exact ⟨ha hfirst.source_mem, hb hlast.target_mem, hne,
      hway.mono (fun _ _ he => he) fun _ _ hi _ => hi.2⟩
  · rintro ⟨ha, hb, hne, hway⟩
    exact ⟨⟨fun _ => ha, fun _ => hb, hway.mono (fun _ _ he => he) fun _ _ hi he => ⟨he.source_mem, hi⟩⟩,
      hne⟩

end Idle

end Graph

end Rollout
