import Rollout.Proofs.Schedule.Order

namespace Rollout

-- How far a recursive walk has come: the names it has marked as visited, and those it has
-- emitted, the last one last.
structure Trail where
  marked : NameSet
  emitted : List String

namespace Trail

def mark (trail : Trail) (name : String) : Trail :=
  { trail with marked := trail.marked.insert name }

def emit (trail : Trail) (name : String) : Trail :=
  { trail with emitted := trail.emitted ++ [name] }

-- What a part of a walk adds: names that were not marked before are marked, and each of them is
-- emitted once.
structure Emits (before : Trail) (new : List String) (after : Trail) : Prop where
  emitted : after.emitted = before.emitted ++ new
  nodup : new.Nodup
  marked : ∀ name, name ∈ after.marked ↔ name ∈ before.marked ∨ name ∈ new
  fresh : ∀ name ∈ new, name ∉ before.marked

theorem mem_mark (trail : Trail) (name n : String) :
    n ∈ (trail.mark name).marked ↔ n = name ∨ n ∈ trail.marked := by
  rw [mark, Std.ExtTreeSet.mem_insert, Std.compare_eq_iff_eq, eq_comm]

theorem Emits.refl (trail : Trail) : trail.Emits [] trail where
  emitted := (List.append_nil _).symm
  nodup := List.nodup_nil
  marked := by simp
  fresh := by simp

theorem Emits.trans {before middle after : Trail} {first second : List String}
    (hfirst : before.Emits first middle) (hsecond : middle.Emits second after) :
    before.Emits (first ++ second) after where
  emitted := by rw [hsecond.emitted, hfirst.emitted, List.append_assoc]
  nodup := by
    refine List.nodup_append.mpr ⟨hfirst.nodup, hsecond.nodup, ?_⟩
    rintro name hf _ hs rfl
    exact hsecond.fresh name hs ((hfirst.marked name).mpr (.inr hf))
  marked name := by rw [hsecond.marked, hfirst.marked, List.mem_append, or_assoc]
  fresh name hn hb := by
    rcases List.mem_append.mp hn with hf | hs
    · exact hfirst.fresh name hf hb
    · exact hsecond.fresh name hs ((hfirst.marked name).mpr (.inl hb))

-- A name is marked before what it depends on is walked, and emitted after that.
theorem Emits.around {trail upstream : Trail} {name : String} {new : List String}
    (hname : name ∉ trail.marked) (h : (trail.mark name).Emits new upstream) :
    trail.Emits (new ++ [name]) (upstream.emit name) where
  emitted := by
    rw [emit, h.emitted, List.append_assoc]
    rfl
  nodup := by
    refine List.nodup_append.mpr ⟨h.nodup, List.pairwise_singleton _ name, ?_⟩
    rintro n hn _ hname rfl
    obtain rfl := List.mem_singleton.mp hname
    exact h.fresh n hn ((mem_mark trail n n).mpr (.inl rfl))
  marked n := by
    rw [emit, h.marked, mem_mark, List.mem_append, List.mem_singleton]
    tauto
  fresh n hn hm := by
    rcases List.mem_append.mp hn with hn | hn
    · exact h.fresh n hn ((mem_mark trail name n).mpr (.inr hm))
    · exact hname (List.mem_singleton.mp hn ▸ hm)

-- Where a walk from a trail can come to: with what it marks, all of it is emitted.
def Onward (trail : Trail) : Type := { after : Trail // ∃ new, trail.Emits new after }

namespace Onward

variable {trail : Trail}

def start (trail : Trail) : trail.Onward := ⟨trail, [], .refl trail⟩

def andThen (middle : trail.Onward) (after : middle.val.Onward) : trail.Onward :=
  ⟨after.val, by
    obtain ⟨first, hfirst⟩ := middle.property
    obtain ⟨second, hsecond⟩ := after.property
    exact ⟨_, hfirst.trans hsecond⟩⟩

def around {name : String} (hname : name ∉ trail.marked) (upstream : (trail.mark name).Onward) :
    trail.Onward :=
  ⟨upstream.val.emit name, by
    obtain ⟨new, hnew⟩ := upstream.property
    exact ⟨_, hnew.around hname⟩⟩

end Onward

end Trail

namespace Graph

-- The names of the graph that a walk has not marked.
def unmarked (graph : Graph) (trail : Trail) : NameSet := graph.nameSet \ trail.marked

theorem mem_unmarked (graph : Graph) (trail : Trail) (name : String) :
    name ∈ graph.unmarked trail ↔ name ∈ graph.names ∧ name ∉ trail.marked := by
  rw [unmarked, Std.ExtTreeSet.mem_diff_iff, mem_nameSet]

theorem unmarked_mark (graph : Graph) (trail : Trail) (name : String) :
    graph.unmarked (trail.mark name) = (graph.unmarked trail).erase name := by
  refine Std.ExtTreeSet.ext_mem fun n => ?_
  rw [Std.ExtTreeSet.mem_erase, Ne, Std.compare_eq_iff_eq, mem_unmarked, mem_unmarked,
    Trail.mem_mark]
  tauto

theorem size_unmarked_mark_lt {graph : Graph} {trail : Trail} {name : String}
    (hmem : name ∈ graph.names) (hname : name ∉ trail.marked) :
    (graph.unmarked (trail.mark name)).size < (graph.unmarked trail).size := by
  rw [unmarked_mark]
  exact size_erase_lt_of_contains _ name
    (Std.ExtTreeSet.contains_iff_mem.mpr ((graph.mem_unmarked trail name).mpr ⟨hmem, hname⟩))

theorem size_unmarked_onward_le (graph : Graph) {trail : Trail} (after : trail.Onward) :
    (graph.unmarked after.val).size ≤ (graph.unmarked trail).size := by
  obtain ⟨new, hnew⟩ := after.property
  have hsubset : ∀ name ∈ graph.unmarked after.val, name ∈ graph.unmarked trail := by
    intro name hn
    rw [mem_unmarked, hnew.marked] at hn
    exact (graph.mem_unmarked trail name).mpr ⟨hn.1, fun hm => hn.2 (.inl hm)⟩
  rw [← Std.ExtTreeSet.size_inter_eq_size_left hsubset]
  exact Std.ExtTreeSet.size_inter_le_size_right

-- The walk as a recursion. A marked name is passed over. Any other is marked, what it depends on
-- is walked in ascending order, then it is emitted. That a walk only ever marks more names is what
-- makes it end, so its result says so.
def descendFrom (graph : Graph) (trail : Trail) (name : String) : trail.Onward :=
  if hname : name ∈ trail.marked then .start trail
  else .around hname <| (graph.dependencies name).toList.attach.foldl
    (fun upstream source => upstream.andThen (graph.descendFrom upstream.val source.val))
    (.start (trail.mark name))
termination_by (graph.unmarked trail).size
decreasing_by
  have hmem : name ∈ graph.names := Edge.target_mem (Std.ExtTreeSet.mem_toList.mp source.property)
  exact (graph.size_unmarked_onward_le upstream).trans_lt (size_unmarked_mark_lt hmem hname)

def descend (graph : Graph) (trail : Trail) (name : String) : Trail :=
  (graph.descendFrom trail name).val

theorem emits_descend (graph : Graph) (trail : Trail) (name : String) :
    ∃ new, trail.Emits new (graph.descend trail name) := (graph.descendFrom trail name).property

theorem descend_eq (graph : Graph) (trail : Trail) (name : String) :
    graph.descend trail name =
      if name ∈ trail.marked then trail
      else ((graph.dependencies name).toList.foldl graph.descend (trail.mark name)).emit name := by
  rw [descend, descendFrom]
  split
  · rfl
  · rw [← List.foldl_attach (f := graph.descend)]
    exact congrArg (Trail.emit · name) (List.foldl_hom Subtype.val fun _ _ => rfl).symm

section Frames

variable (graph : Graph)

-- What lies further out on a stack waits until the visits further in are done.
theorem walk_append (inner outer : List Visit) (progress : Progress) :
    graph.walk (inner ++ outer) progress = graph.walk outer (graph.walk inner progress) := by
  fun_induction Graph.walk graph inner progress with
  | case1 progress => rfl
  | case2 progress name inner ih => rw [List.cons_append, walk, ih]
  | case3 progress name next pending inner hnext ih =>
      rw [List.cons_append, walk, dif_pos hnext, ← ih]
      rfl
  | case4 progress name next pending inner hnext ih =>
      rw [List.cons_append, walk, dif_neg hnext, ← ih]
      rfl

-- One turn of the walk looks at the next pending name, and is a visit of it.
theorem walk_next (name next : String) (pending : List String) (outer : List Visit)
    (progress : Progress) :
    graph.walk (⟨name, next :: pending⟩ :: outer) progress =
      graph.walk (⟨name, pending⟩ :: outer) (graph.visit progress next) := by
  by_cases hnext : progress.unvisited.contains next = true
  · rw [walk, dif_pos hnext, visit, if_pos hnext]
    exact graph.walk_append [graph.visitOf next] (⟨name, pending⟩ :: outer) _
  · rw [walk, dif_neg hnext, visit, if_neg hnext]

theorem walk_frame (name : String) (pending : List String) (outer : List Visit)
    (progress : Progress) :
    graph.walk (⟨name, pending⟩ :: outer) progress =
      let upstream := pending.foldl graph.visit progress
      graph.walk outer { upstream with done := name :: upstream.done } := by
  induction pending generalizing progress with
  | nil => rw [walk, List.foldl_nil]
  | cons next pending ih => rw [walk_next, ih, List.foldl_cons]

-- A visit obeys the equation of the recursion.
theorem visit_eq (progress : Progress) (name : String) :
    graph.visit progress name =
      if progress.unvisited.contains name then
        let upstream := (graph.dependencies name).toList.foldl graph.visit
          { progress with unvisited := progress.unvisited.erase name }
        { upstream with done := name :: upstream.done }
      else progress := by
  rw [visit, visitOf, walk_frame, walk]

theorem size_unvisited_walk (stack : List Visit) (progress : Progress) :
    (graph.walk stack progress).unvisited.size ≤ progress.unvisited.size := by
  fun_induction Graph.walk graph stack progress with
  | case1 progress => exact le_rfl
  | case2 progress name outer ih => exact ih
  | case3 progress name next pending outer hnext ih =>
      exact ih.trans (size_erase_lt_of_contains _ next hnext).le
  | case4 progress name next pending outer hnext ih => exact ih

theorem size_unvisited_visit (progress : Progress) (name : String) :
    (graph.visit progress name).unvisited.size ≤ progress.unvisited.size := by
  unfold visit
  split
  · rename_i hname
    exact (graph.size_unvisited_walk _ _).trans (size_erase_lt_of_contains _ name hname).le
  · exact le_rfl

end Frames

-- A walk over a stack and a recursive one have come equally far.
structure Tracks (graph : Graph) (progress : Progress) (trail : Trail) : Prop where
  unvisited : progress.unvisited = graph.unmarked trail
  done : progress.done = trail.emitted.reverse

namespace Tracks

variable {graph : Graph} {progress : Progress} {trail : Trail}

theorem contains_iff (h : graph.Tracks progress trail) {name : String} (hn : name ∈ graph.names) :
    progress.unvisited.contains name = true ↔ name ∉ trail.marked := by
  rw [Std.ExtTreeSet.contains_iff_mem, h.unvisited, mem_unmarked]
  exact and_iff_right hn

theorem mark (h : graph.Tracks progress trail) (name : String) :
    graph.Tracks { progress with unvisited := progress.unvisited.erase name } (trail.mark name) where
  unvisited := by rw [h.unvisited, unmarked_mark]
  done := h.done

theorem emit (h : graph.Tracks progress trail) (name : String) :
    graph.Tracks { progress with done := name :: progress.done } (trail.emit name) where
  unvisited := h.unvisited
  done := by
    rw [Trail.emit, List.reverse_append, h.done]
    rfl

-- The names that are still unvisited bound how deep the recursion goes.
theorem foldl {bound : Nat}
    (hvisit : ∀ {progress trail name}, progress.unvisited.size < bound →
      graph.Tracks progress trail → name ∈ graph.names →
      graph.Tracks (graph.visit progress name) (graph.descend trail name))
    {names : List String} (hnames : ∀ name ∈ names, name ∈ graph.names)
    (hsize : progress.unvisited.size < bound) (h : graph.Tracks progress trail) :
    graph.Tracks (names.foldl graph.visit progress) (names.foldl graph.descend trail) := by
  induction names generalizing progress trail with
  | nil => exact h
  | cons name names ih =>
      obtain ⟨hname, hnames⟩ := List.forall_mem_cons.mp hnames
      exact ih hnames ((graph.size_unvisited_visit progress name).trans_lt hsize)
        (hvisit hsize h hname)

theorem descend {name : String} (h : graph.Tracks progress trail) (hn : name ∈ graph.names) :
    graph.Tracks (graph.visit progress name) (graph.descend trail name) := by
  induction hbound : progress.unvisited.size using Nat.strong_induction_on
    generalizing progress trail name with
  | _ bound ih =>
      rw [graph.descend_eq, graph.visit_eq]
      by_cases hmarked : name ∈ trail.marked
      · rw [if_pos hmarked, if_neg fun hu => (h.contains_iff hn).mp hu hmarked]
        exact h
      · have hunvisited := (h.contains_iff hn).mpr hmarked
        rw [if_neg hmarked, if_pos hunvisited]
        have hsources : ∀ source ∈ (graph.dependencies name).toList, source ∈ graph.names :=
          fun source hs => Edge.source_mem (Std.ExtTreeSet.mem_toList.mp hs)
        have hsize : (progress.unvisited.erase name).size < bound :=
          hbound ▸ size_erase_lt_of_contains _ name hunvisited
        have hupstream := (h.mark name).foldl
          (fun hless htracks hm => ih _ hless htracks hm rfl) hsources hsize
        exact hupstream.emit name

end Tracks

-- The recursion passes over a marked name, and otherwise marks it, goes on to what it depends on
-- in ascending order and emits it. From every set of visited names and every name of the graph the
-- walk over a stack ends with the same names visited and emitted. The names it visits in addition
-- are those that it emits in addition, each once.
theorem visit_descends (graph : Graph) (before : Trail) (start : String)
    (hstart : graph.contains start = true) :
    let after := graph.descend before start
    (∀ trail name, graph.descend trail name =
      if name ∈ trail.marked then trail
      else ((graph.dependencies name).toList.foldl graph.descend (trail.mark name)).emit name) ∧
    graph.visit ⟨graph.unmarked before, before.emitted.reverse⟩ start =
      ⟨graph.unmarked after, after.emitted.reverse⟩ ∧
    ∃ new, before.Emits new after := by
  intro after
  have hbefore : graph.Tracks ⟨graph.unmarked before, before.emitted.reverse⟩ before := ⟨rfl, rfl⟩
  have htracks := hbefore.descend ((graph.mem_names start).mpr hstart)
  refine ⟨graph.descend_eq, ?_, graph.emits_descend before start⟩
  rw [← htracks.unvisited, ← htracks.done]

-- The walk starts on the cycle, with the root visited before it.
theorem visit_descends_ring :
    ring.contains "y" = true ∧
      let before : Trail := ⟨NameSet.ofList ["root"], ["root"]⟩
      let after := ring.descend before "y"
      ring.visit ⟨ring.unmarked before, before.emitted.reverse⟩ "y" =
          ⟨ring.unmarked after, after.emitted.reverse⟩ ∧
        ∃ new, before.Emits new after := by
  have hstart : ring.contains "y" = true := by decide
  exact ⟨hstart, (visit_descends ring ⟨NameSet.ofList ["root"], ["root"]⟩ "y" hstart).2⟩

end Graph

end Rollout
