import Rollout.Fault

namespace Rollout.Entries

variable {α β : Type} (find : α → Except Fault β)

-- Every key with what is found under it. The first key that nothing is found under fails it.
def collect (keys : List α) : Except Fault (List (α × β)) :=
  keys.mapM fun key => (find key).map fun value => (key, value)

theorem collect_cons (key : α) (keys : List α) :
    collect find (key :: keys) =
      (find key).bind fun value => (collect find keys).map fun rest => (key, value) :: rest := by
  rw [collect, List.mapM_cons]
  cases find key <;> rfl

theorem collect_cons_eq_ok_iff (key : α) (keys : List α) (entries : List (α × β)) :
    collect find (key :: keys) = .ok entries ↔
      ∃ value rest, find key = .ok value ∧ collect find keys = .ok rest ∧
        entries = (key, value) :: rest := by
  rw [collect_cons]
  constructor
  · intro h
    cases hkey : find key with
    | error fault => rw [hkey] at h; cases h
    | ok value =>
        cases hrest : collect find keys with
        | error fault => rw [hkey, hrest] at h; cases h
        | ok rest =>
            rw [hkey, hrest] at h
            exact ⟨value, rest, rfl, rfl, (Except.ok.inj h).symm⟩
  · rintro ⟨value, rest, hkey, hrest, rfl⟩
    rw [hkey, hrest]
    rfl

theorem collect_cons_eq_error_iff (key : α) (keys : List α) (fault : Fault) :
    collect find (key :: keys) = .error fault ↔
      find key = .error fault ∨
        ∃ value, find key = .ok value ∧ collect find keys = .error fault := by
  rw [collect_cons]
  cases find key with
  | error other => simp [Except.bind]
  | ok value => cases collect find keys <;> simp [Except.bind, Except.map]

theorem map_fst_of_collect {keys : List α} {entries : List (α × β)}
    (h : collect find keys = .ok entries) : entries.map Prod.fst = keys := by
  induction keys generalizing entries with
  | nil => cases h; rfl
  | cons key keys ih =>
      obtain ⟨value, rest, -, hrest, rfl⟩ := (collect_cons_eq_ok_iff find _ _ _).mp h
      exact congrArg (key :: ·) (ih hrest)

theorem find_of_mem_collect {keys : List α} {entries : List (α × β)}
    (h : collect find keys = .ok entries) (entry : α × β) (he : entry ∈ entries) :
    find entry.1 = .ok entry.2 := by
  induction keys generalizing entries with
  | nil => cases h; cases he
  | cons key keys ih =>
      obtain ⟨value, rest, hkey, hrest, rfl⟩ := (collect_cons_eq_ok_iff find _ _ _).mp h
      rcases List.mem_cons.mp he with rfl | he
      · exact hkey
      · exact ih hrest he

theorem mem_collect {keys : List α} {entries : List (α × β)} (h : collect find keys = .ok entries)
    (key : α) (value : β) : (key, value) ∈ entries ↔ key ∈ keys ∧ find key = .ok value := by
  have hkeys := map_fst_of_collect find h
  constructor
  · intro he
    exact ⟨hkeys ▸ List.mem_map_of_mem he, find_of_mem_collect find h _ he⟩
  · rintro ⟨hk, hv⟩
    rw [← hkeys] at hk
    obtain ⟨⟨key, found⟩, he, rfl⟩ := List.mem_map.mp hk
    obtain rfl : found = value :=
      Except.ok.inj ((find_of_mem_collect find h _ he).symm.trans hv)
    exact he

theorem exists_collect_iff (keys : List α) :
    (∃ entries, collect find keys = .ok entries) ↔ ∀ key ∈ keys, ∃ value, find key = .ok value := by
  constructor
  · rintro ⟨entries, h⟩ key hk
    rw [← map_fst_of_collect find h] at hk
    obtain ⟨entry, he, rfl⟩ := List.mem_map.mp hk
    exact ⟨entry.2, find_of_mem_collect find h entry he⟩
  · intro h
    induction keys with
    | nil => exact ⟨[], rfl⟩
    | cons key keys ih =>
        obtain ⟨value, hkey⟩ := h key List.mem_cons_self
        obtain ⟨rest, hrest⟩ := ih fun other ho => h other (List.mem_cons_of_mem _ ho)
        exact ⟨_, (collect_cons_eq_ok_iff find _ _ _).mpr ⟨value, rest, hkey, hrest, rfl⟩⟩

-- A collection fails with the fault of the first key that nothing is found under.
theorem collect_eq_error_iff (keys : List α) (fault : Fault) :
    collect find keys = .error fault ↔
      ∃ before key after, keys = before ++ key :: after ∧ find key = .error fault ∧
        ∀ earlier ∈ before, ∃ value, find earlier = .ok value := by
  induction keys with
  | nil => simp [collect, pure, Except.pure]
  | cons first keys ih =>
      rw [collect_cons_eq_error_iff, ih]
      constructor
      · rintro (hfirst | ⟨value, hfirst, before, key, after, rfl, hkey, hbefore⟩)
        · exact ⟨[], first, keys, rfl, hfirst, by simp⟩
        · exact ⟨first :: before, key, after, rfl, hkey, List.forall_mem_cons.mpr ⟨⟨value, hfirst⟩, hbefore⟩⟩
      · rintro ⟨before, key, after, hkeys, hkey, hbefore⟩
        cases before with
        | nil =>
            obtain ⟨rfl, rfl⟩ := List.cons.inj hkeys
            exact .inl hkey
        | cons earlier before =>
            obtain ⟨rfl, rfl⟩ := List.cons.inj hkeys
            obtain ⟨⟨value, hvalue⟩, hrest⟩ := List.forall_mem_cons.mp hbefore
            exact .inr ⟨value, hvalue, before, key, after, rfl, hkey, hrest⟩

-- Searches that fail alike make collections that fail alike.
theorem collect_eq_error_congr {find other : α → Except Fault β} (keys : List α)
    (h : ∀ key fault, find key = .error fault ↔ other key = .error fault) (fault : Fault) :
    collect find keys = .error fault ↔ collect other keys = .error fault := by
  have hok : ∀ key, (∃ value, find key = .ok value) ↔ ∃ value, other key = .ok value := by
    intro key
    have hkey := h key
    cases hf : find key <;> cases ho : other key <;> simp_all
  simp only [collect_eq_error_iff, h, hok]

end Rollout.Entries
