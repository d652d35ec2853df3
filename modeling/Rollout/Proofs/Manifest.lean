import Mathlib.Data.List.Forall2
import Rollout.Manifest.Reader

namespace Rollout

section Entries

variable {α β : Type} {make : α → Except Fault β} {entries : List α}

theorem mapM_cons_eq_bind (entry : α) (rest : List α) :
    (entry :: rest).mapM make =
      (make entry).bind fun made => (rest.mapM make).map fun others => made :: others := by
  rw [List.mapM_cons]
  cases make entry <;> rfl

theorem fault_of_mapM {fault : Fault} (h : entries.mapM make = .error fault) :
    ∃ entry ∈ entries, make entry = .error fault := by
  induction entries with
  | nil => cases h
  | cons entry rest ih =>
      rw [mapM_cons_eq_bind] at h
      cases hentry : make entry with
      | error other =>
          rw [hentry] at h
          cases h
          exact ⟨entry, List.mem_cons_self, hentry⟩
      | ok made =>
          cases hrest : rest.mapM make with
          | error other =>
              rw [hentry, hrest] at h
              cases h
              obtain ⟨failing, hm, hfault⟩ := ih hrest
              exact ⟨failing, List.mem_cons_of_mem _ hm, hfault⟩
          | ok others => rw [hentry, hrest] at h; cases h

theorem exists_mapM (h : ∀ entry ∈ entries, ∃ made, make entry = .ok made) :
    ∃ made, entries.mapM make = .ok made := by
  cases hmade : entries.mapM make with
  | ok made => exact ⟨made, rfl⟩
  | error fault =>
      obtain ⟨entry, hm, hfault⟩ := fault_of_mapM hmade
      obtain ⟨made, hentry⟩ := h entry hm
      cases hfault.symm.trans hentry

theorem forall₂_of_mapM {made : List β} (h : entries.mapM make = .ok made) :
    List.Forall₂ (fun entry result => make entry = .ok result) entries made := by
  induction entries generalizing made with
  | nil => cases h; exact .nil
  | cons entry rest ih =>
      rw [mapM_cons_eq_bind] at h
      cases hentry : make entry with
      | error fault => rw [hentry] at h; cases h
      | ok first =>
          cases hrest : rest.mapM make with
          | error fault => rw [hentry, hrest] at h; cases h
          | ok others =>
              rw [hentry, hrest] at h
              cases h
              exact .cons hentry (ih hrest)

end Entries

namespace Pace

variable {pace : Pace}

theorem window_eq_ok_iff {window : Int} :
    pace.window = .ok window ↔
      pace.stalenessDays ≤ longestWindow ∧
        window = pace.stalenessDays * secondsPerDay * Instant.nanosPerSecond := by
  rw [Pace.window]
  split
  · rename_i hlong
    simp [Int.not_le.mpr hlong]
  · rename_i hfits
    simp [Int.not_lt.mp hfits, eq_comm]

theorem window_eq_error_iff {fault : Fault} :
    pace.window = .error fault ↔
      longestWindow < pace.stalenessDays ∧ fault = .windowTooLong pace.stalenessDays := by
  rw [Pace.window]
  split
  · rename_i hlong
    simp [hlong, eq_comm]
  · rename_i hfits
    simp [hfits]

end Pace

-- A job that waits for dependencies as its entry says, on the shared graph and with the
-- staleness window of the shared pace.
structure WaveEntry.Declares (entry : WaveEntry) (pace : Pace) (total : Graph) (job : Job)
    (gate : Gate) : Prop where
  kind : job.kind = .wave entry.name gate
  settings : job.settings =
    ⟨entry.version, entry.objectVersion, entry.prLimit, true, pace.increment, []⟩
  graph : gate.graph = total
  window : gate.window = pace.stalenessDays * Pace.secondsPerDay * Instant.nanosPerSecond
  pinning : gate.pinning = pace.pinning
  ignored : gate.ignored = entry.ignored
  topLevel : ∀ name, name ∈ gate.topLevel ↔ name ∈ entry.topLevel
  cycles : ∀ name, name ∈ gate.cycles ↔ ∃ group ∈ entry.cycles, name ∈ group

structure SwapEntry.Declares (entry : SwapEntry) (pace : Pace) (job : Job) (pair : Swap) :
    Prop where
  kind : job.kind = .swap pair
  settings : job.settings = ⟨0, none, entry.prLimit, true, pace.increment, []⟩
  old : pair.old = entry.old
  new : pair.new = entry.new
  rationale : pair.rationale = entry.rationale

structure PlatformsEntry.Declares (entry : PlatformsEntry) (total : Graph) (job : Job)
    (gate : Gate) : Prop where
  kind : job.kind = .platforms entry.profile entry.name gate entry.scope.allTargets
  settings : job.settings = ⟨1, none, entry.prLimit, false, 0, []⟩
  gate : gate = .ofGraph (total.platformGraph entry.profile entry.scope)

theorem WaveEntry.declares_of_job {entry : WaveEntry} {pace : Pace} {total : Graph} {job : Job}
    (h : entry.job pace total = .ok job) : ∃ gate, entry.Declares pace total job gate := by
  cases hwindow : pace.window with
  | error fault => rw [WaveEntry.job, hwindow] at h; cases h
  | ok window =>
      rw [WaveEntry.job, hwindow] at h
      cases h
      exact ⟨_, {
        kind := rfl
        settings := rfl
        graph := rfl
        window := (Pace.window_eq_ok_iff.mp hwindow).2
        pinning := rfl
        ignored := rfl
        topLevel := NameSet.mem_ofList entry.topLevel
        cycles := fun name => by rw [NameSet.mem_ofList, List.mem_flatten] }⟩

theorem WaveEntry.job_eq_error_iff {entry : WaveEntry} {pace : Pace} {total : Graph}
    {fault : Fault} : entry.job pace total = .error fault ↔ pace.window = .error fault := by
  rw [WaveEntry.job]
  cases pace.window <;> simp [Except.map]

-- What the check of a replacement lets through makes a pair of packages.
theorem SwapEntry.exists_job {entry : SwapEntry} (h : entry.fault? = none) (pace : Pace) :
    ∃ job, entry.job pace = .ok job := by
  obtain ⟨⟨hold, hnew⟩, hne⟩ : (isBlankText entry.old = false ∧ isBlankText entry.new = false) ∧
      entry.old ≠ entry.new := by
    rw [SwapEntry.fault?] at h
    split at h
    · cases h
    · split at h
      · cases h
      · rename_i hblank hne
        exact ⟨by simpa using hblank, hne⟩
  have hfilled : ¬(entry.old = "" ∨ entry.new = "") := by
    rintro (hempty | hempty)
    · rw [hempty] at hold; cases hold
    · rw [hempty] at hnew; cases hnew
  rw [SwapEntry.job, Swap.make, dif_neg hfilled, dif_neg hne]
  exact ⟨_, rfl⟩

theorem SwapEntry.declares_of_job {entry : SwapEntry} {pace : Pace} {job : Job}
    (h : entry.job pace = .ok job) : ∃ pair, entry.Declares pace job pair := by
  rw [SwapEntry.job, Swap.make] at h
  split at h
  · cases h
  · split at h
    · cases h
    · cases h
      exact ⟨_, rfl, rfl, rfl, rfl, rfl⟩

theorem PlatformsEntry.declares_job (entry : PlatformsEntry) (total : Graph) :
    ∃ gate, entry.Declares total (entry.job total) gate := ⟨_, rfl, rfl, rfl⟩

namespace Manifest

variable {manifest : Manifest} {total : Graph}

-- One job for each entry: those that wait for dependencies, the replacements and the rebuilds,
-- each in the order of the file.
def Declares (manifest : Manifest) (total : Graph) (jobs : List Job) : Prop :=
  ∃ waves swaps platforms, jobs = waves ++ swaps ++ platforms ∧
    List.Forall₂ (fun entry job => ∃ gate, WaveEntry.Declares entry manifest.pace total job gate)
      manifest.waves waves ∧
    List.Forall₂ (fun entry job => ∃ pair, SwapEntry.Declares entry manifest.pace job pair)
      manifest.swaps swaps ∧
    List.Forall₂ (fun entry job => ∃ gate, PlatformsEntry.Declares entry total job gate)
      manifest.platforms platforms

theorem Declares.length_eq {jobs : List Job} (h : manifest.Declares total jobs) :
    jobs.length = manifest.jobCount := by
  obtain ⟨waves, swaps, platforms, rfl, hwaves, hswaps, hplatforms⟩ := h
  rw [List.length_append, List.length_append, ← hwaves.length_eq, ← hswaps.length_eq,
    ← hplatforms.length_eq, jobCount]

theorem jobs_eq_bind (manifest : Manifest) (total : Graph) :
    manifest.jobs total =
      (manifest.waves.mapM fun entry => WaveEntry.job entry manifest.pace total).bind fun waves =>
        (manifest.swaps.mapM fun entry => SwapEntry.job entry manifest.pace).map fun swaps =>
          waves ++ swaps ++ manifest.platforms.map fun entry => PlatformsEntry.job entry total := by
  rw [jobs]
  cases manifest.waves.mapM fun entry => WaveEntry.job entry manifest.pace total with
  | error fault => rfl
  | ok waves => cases manifest.swaps.mapM fun entry => SwapEntry.job entry manifest.pace <;> rfl

theorem declares_of_jobs {jobs : List Job} (h : manifest.jobs total = .ok jobs) :
    manifest.Declares total jobs := by
  rw [jobs_eq_bind] at h
  cases hwaves : manifest.waves.mapM fun entry => WaveEntry.job entry manifest.pace total with
  | error fault => rw [hwaves] at h; cases h
  | ok waves =>
      cases hswaps : manifest.swaps.mapM fun entry => SwapEntry.job entry manifest.pace with
      | error fault => rw [hwaves, hswaps] at h; cases h
      | ok swaps =>
          rw [hwaves, hswaps] at h
          cases h
          refine ⟨waves, swaps, _, rfl, (forall₂_of_mapM hwaves).imp ?_,
            (forall₂_of_mapM hswaps).imp ?_, ?_⟩
          · exact fun entry job hjob => WaveEntry.declares_of_job hjob
          · exact fun entry job hjob => SwapEntry.declares_of_job hjob
          · rw [List.forall₂_map_right_iff, List.forall₂_same]
            exact fun entry _ => entry.declares_job total

theorem fault?_of_ofText {text : String} (h : ofText text = .ok manifest) :
    manifest.fault? = none := by
  rw [ofText] at h
  split at h
  · cases h
  · split at h
    · cases h
    · rename_i hfault
      cases h
      exact hfault

theorem exists_swapJobs (h : manifest.fault? = none) :
    ∃ swaps, (manifest.swaps.mapM fun entry => entry.job manifest.pace) = .ok swaps := by
  rw [fault?, Option.or_eq_none_iff, Option.or_eq_none_iff, List.findSome?_eq_none_iff,
    List.findSome?_eq_none_iff] at h
  obtain ⟨-, -, hentries⟩ := h
  exact exists_mapM fun entry hm => SwapEntry.exists_job (hentries entry hm) manifest.pace

-- Past the check, only the staleness window can be in the way of a job.
theorem jobs_eq_error_iff (h : manifest.fault? = none) {fault : Fault} :
    manifest.jobs total = .error fault ↔
      manifest.waves ≠ [] ∧ manifest.pace.window = .error fault := by
  obtain ⟨swaps, hswaps⟩ := exists_swapJobs h
  rw [jobs_eq_bind, hswaps]
  cases hwaves : manifest.waves.mapM fun entry => WaveEntry.job entry manifest.pace total with
  | error other =>
      obtain ⟨entry, hm, hentry⟩ := fault_of_mapM hwaves
      rw [WaveEntry.job_eq_error_iff.mp hentry]
      simp [Except.bind, List.ne_nil_of_mem hm]
  | ok waves =>
      simp only [Except.bind, Except.map, reduceCtorEq, false_iff, not_and]
      intro hne hwindow
      obtain ⟨entry, rest, hcons⟩ := List.exists_cons_of_ne_nil hne
      rw [hcons, mapM_cons_eq_bind, WaveEntry.job_eq_error_iff.mpr hwindow] at hwaves
      cases hwaves

-- A manifest that is accepted makes its jobs unless its staleness window does not fit, which
-- the check does not look at.
theorem accepted_jobs {text : String} (h : ofText text = .ok manifest) (total : Graph) :
    ((∃ jobs, manifest.jobs total = .ok jobs) ↔
      manifest.waves = [] ∨ manifest.pace.stalenessDays ≤ Pace.longestWindow) ∧
    (∀ jobs, manifest.jobs total = .ok jobs →
      manifest.Declares total jobs ∧ jobs.length = manifest.jobCount) ∧
    ∀ fault, manifest.jobs total = .error fault →
      fault = .windowTooLong manifest.pace.stalenessDays := by
  have herror := @jobs_eq_error_iff manifest total (fault?_of_ofText h)
  refine ⟨?_, fun jobs hjobs => ?_, fun fault hfault => ?_⟩
  · constructor
    · rintro ⟨jobs, hjobs⟩
      by_contra hlong
      obtain ⟨hne, hlong⟩ := not_or.mp hlong
      have hfault := herror.mpr ⟨hne, Pace.window_eq_error_iff.mpr ⟨Int.not_le.mp hlong, rfl⟩⟩
      cases hjobs.symm.trans hfault
    · intro hfits
      cases hjobs : manifest.jobs total with
      | ok jobs => exact ⟨jobs, rfl⟩
      | error fault =>
          obtain ⟨hne, hwindow⟩ := herror.mp hjobs
          have hlong := (Pace.window_eq_error_iff.mp hwindow).1
          obtain hnone | hle := hfits
          · exact absurd hnone hne
          · exact absurd hlong (Int.not_lt.mpr hle)
  · have hdeclares := declares_of_jobs hjobs
    exact ⟨hdeclares, hdeclares.length_eq⟩
  · exact (Pace.window_eq_error_iff.mp (herror.mp hfault).2).2

-- One job of each kind, and the longest window that fits.
def widestText : String :=
  "[scheduler]\nstaleness_days = 106751991167\n\n[[graph]]\n\n" ++
    "[[replacement]]\nold = \"numpy\"\nnew = \"numpy-base\"\n\n[[arch]]\nprofile = \"osx-arm64\"\n"

def widest : Manifest where
  pace := { Pace.default with stalenessDays := 106751991167 }
  waves := [⟨none, 0, none, [], [], ∅, 0⟩]
  swaps := [⟨"numpy", "numpy-base", "", 0⟩]
  platforms := [⟨.osxArm64, none, ⟨∅, ∅⟩, 0⟩]

theorem accepted_jobs_widest :
    ofText widestText = .ok widest ∧
      ∃ jobs, widest.jobs .empty = .ok jobs ∧ widest.Declares .empty jobs ∧ jobs.length = 3 := by
  have haccepted : ofText widestText = .ok widest := by decide +kernel
  obtain ⟨hexists, hdeclares, -⟩ := accepted_jobs haccepted .empty
  obtain ⟨jobs, hjobs⟩ := hexists.mpr (.inr (by decide))
  exact ⟨haccepted, jobs, hjobs, hdeclares jobs hjobs⟩

-- One day more.
def overlongText : String := "[scheduler]\nstaleness_days = 106751991168\n\n[[graph]]\n"

def overlong : Manifest where
  pace := { Pace.default with stalenessDays := 106751991168 }
  waves := [⟨none, 0, none, [], [], ∅, 0⟩]
  swaps := []
  platforms := []

theorem overlong_accepted_without_jobs :
    ofText overlongText = .ok overlong ∧
      ∀ total, overlong.jobs total = .error (.windowTooLong 106751991168) :=
  ⟨by decide +kernel, fun _ => rfl⟩

end Manifest

end Rollout
