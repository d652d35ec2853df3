import Rollout.Proofs.Graph.Cycles
import Rollout.Proofs.Graph.Prune

namespace Rollout.Graph

-- No directed cycle but loops.
def LoopsOnly (graph : Graph) : Prop := ∀ first rest, graph.Cycle first rest → rest = []

theorem LoopsOnly.mono {graph part : Graph} (h : graph.LoopsOnly)
    (hsub : ∀ source target, part.Edge source target → graph.Edge source target) :
    part.LoopsOnly := by
  intro first rest hc
  exact h first rest ⟨hc.nodup, hc.chain.imp hsub⟩

-- The last edge of a path that is no loop.
theorem Path.exists_last {graph : Graph} {source target : String} (hp : graph.Path source target)
    (hne : source ≠ target) :
    ∃ last, graph.Path source last ∧ graph.Edge last target ∧ last ≠ target := by
  induction hp with
  | refl => exact absurd rfl hne
  | @tail last target hp he ih =>
      by_cases hl : last = target
      · subst hl
        exact ih hne
      · exact ⟨last, hp, he, hl⟩

-- Of the names with paths from and to a source, if there are several, each depends on another one.
theorem Path.exists_between {graph : Graph} {source target name : String}
    (hp : graph.Path source target) (hback : graph.Path target source) (hne : source ≠ target)
    (hto : graph.Path source name) (hfrom : graph.Path name source) :
    ∃ last, graph.Path source last ∧ graph.Path last source ∧ graph.Edge last name ∧ last ≠ name := by
  obtain ⟨other, hother, hn, hon⟩ :
      ∃ other, graph.Path source other ∧ other ≠ name ∧ graph.Path other name := by
    by_cases hsame : source = name
    · exact ⟨target, hp, fun ht => hne (hsame.trans ht.symm), hsame ▸ hback⟩
    · exact ⟨source, .refl, hsame, hto⟩
  obtain ⟨last, hlast, he, hloop⟩ := hon.exists_last hn
  exact ⟨last, hother.trans hlast, he.path.trans hfrom, he, hloop⟩

theorem LoopsOnly.eq_of_paths {graph : Graph} (h : graph.LoopsOnly) {source target : String}
    (hp : graph.Path source target) (hback : graph.Path target source) : source = target := by
  classical
  by_contra hne
  obtain ⟨names, hnames⟩ : ∃ names : List String, ∀ name, name ∈ names ↔
      name ∈ graph.names ∧ graph.Path source name ∧ graph.Path name source :=
    ⟨graph.names.filter fun name => graph.Path source name ∧ graph.Path name source, by simp⟩
  have hstep : ∀ name, graph.Path source name → graph.Path name source →
      ∃ last ∈ names, graph.removeLoops.Edge last name := by
    intro name hto hfrom
    obtain ⟨last, hlast, hl, he, hloop⟩ := hp.exists_between hback hne hto hfrom
    exact ⟨last, (hnames last).mpr ⟨he.source_mem, hlast, hl⟩, (graph.edge_removeLoops _ _).mpr ⟨he, hloop⟩⟩
  -- These names hold a cycle even without the loops.
  obtain ⟨start, hstart, -⟩ := hstep source .refl .refl
  obtain ⟨first, rest, hc, -⟩ := graph.removeLoops.exists_cycle names (List.ne_nil_of_mem hstart)
    fun name hm => hstep name ((hnames name).mp hm).2.1 ((hnames name).mp hm).2.2
  have hkept : ∀ a b, graph.removeLoops.Edge a b → graph.Edge a b :=
    fun a b he => ((graph.edge_removeLoops a b).mp he).1
  obtain rfl := h first rest ⟨hc.nodup, hc.chain.imp hkept⟩
  have hloop : graph.removeLoops.Edge first first := (List.isChain_cons_cons.mp hc.chain).1
  exact ((graph.edge_removeLoops first first).mp hloop).2 rfl

-- Dependencies that rank below what depends on them close no cycle.
theorem loopsOnly_of_rank (graph : Graph) (rank : String → Nat)
    (hrank : ∀ target ∈ graph.names, ∀ source ∈ (graph.dependencies target).toList,
      source = target ∨ rank source < rank target) : graph.LoopsOnly := by
  have hedge : ∀ source target, graph.Edge source target →
      source = target ∨ rank source < rank target :=
    fun source target he => hrank target he.target_mem source (Std.ExtTreeSet.mem_toList.mpr he)
  have hpath : ∀ source target, graph.Path source target → rank source ≤ rank target := by
    intro source target hp
    induction hp with
    | refl => exact Nat.le_refl _
    | tail _ he ih =>
        rcases hedge _ _ he with rfl | hlt
        · exact ih
        · exact ih.trans (Nat.le_of_lt hlt)
  intro first rest hc
  cases rest with
  | nil => rfl
  | cons next rest =>
      obtain ⟨he, hchain⟩ := List.isChain_cons_cons.mp hc.chain
      have hback : graph.Path next first :=
        graph.path_of_isChain next (rest ++ [first]) hchain first (by simp)
      rcases hedge first next he with rfl | hlt
      · exact absurd List.mem_cons_self (List.nodup_cons.mp hc.nodup).1
      · exact absurd hlt (Nat.not_lt.mpr (hpath next first hback))

end Rollout.Graph
