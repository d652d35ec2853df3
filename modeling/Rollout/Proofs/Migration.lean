import Mathlib.Control.Monad.Basic
import Rollout.Migration

namespace Rollout

namespace FileState

variable {file : FileState} {content : String}

theorem read_eq_ok_iff : file.read = .ok content ↔
    file = .text content ∨ ∃ left cause, file = .unwritable content left cause := by
  cases file <;> simp [read]

end FileState

-- Faults of an attempt to write a file.
def Fault.IsWrite (fault : Fault) : Prop := ∃ role path cause, fault = .unwritable role path cause

namespace Checkout

variable {checkout : Checkout} {recipe content left cause : String} {fault : Fault}

-- The checkout with another recipe.
def writeRecipe (checkout : Checkout) (content : String) : Checkout :=
  { checkout with recipe := .text content }

-- The checkout after an attempt to write a file that cannot be written.
def spoilRecipe (checkout : Checkout) (left cause : String) : Checkout :=
  { checkout with recipe := .unwritable left left cause }

def spoilConfig (checkout : Checkout) (left cause : String) : Checkout :=
  { checkout with config := .unwritable left left cause }

theorem readRecipe_eq_ok_iff : checkout.readRecipe = .ok recipe ↔ checkout.recipe.read = .ok recipe := by
  rw [readRecipe]
  cases checkout.recipe.read <;> simp [Except.mapError]

theorem readRecipe_of_text (h : checkout.recipe = .text recipe) : checkout.readRecipe = .ok recipe :=
  readRecipe_eq_ok_iff.mpr (FileState.read_eq_ok_iff.mpr (.inl h))

theorem readRecipe_of_unwritable (h : checkout.recipe = .unwritable content left cause) :
    checkout.readRecipe = .ok content :=
  readRecipe_eq_ok_iff.mpr (FileState.read_eq_ok_iff.mpr (.inr ⟨left, cause, h⟩))

theorem storeRecipe_of_text (h : checkout.recipe = .text recipe) (content : String) :
    checkout.storeRecipe content = ⟨checkout.writeRecipe content, .ok ()⟩ := by
  simp only [storeRecipe, h]
  rfl

theorem storeRecipe_of_unwritable (h : checkout.recipe = .unwritable content left cause) (new : String) :
    checkout.storeRecipe new =
      ⟨checkout.spoilRecipe left cause, .error (.unwritable .recipe checkout.recipePath cause)⟩ := by
  simp only [storeRecipe, h]
  rfl

theorem changeCounter_of_text (h : checkout.recipe = .text recipe) (change : BuildNumber) :
    checkout.changeCounter change = ⟨checkout.writeRecipe (updateCounter recipe change), .ok ()⟩ := by
  rw [changeCounter, readRecipe_of_text h, ← storeRecipe_of_text h]

theorem changeCounter_of_unwritable (h : checkout.recipe = .unwritable content left cause)
    (change : BuildNumber) :
    checkout.changeCounter change =
      ⟨checkout.spoilRecipe left cause, .error (.unwritable .recipe checkout.recipePath cause)⟩ := by
  rw [changeCounter, readRecipe_of_unwritable h, ← storeRecipe_of_unwritable h]

theorem changeCounter_of_unreadable (h : checkout.readRecipe = .error fault)
    (change : BuildNumber) : checkout.changeCounter change = ⟨checkout, .error fault⟩ := by
  rw [changeCounter, h]

theorem writeRecipe_eq_self_iff (h : checkout.recipe = .text recipe) (content : String) :
    checkout.writeRecipe content = checkout ↔ content = recipe := by
  obtain ⟨directory, file, config, others⟩ := checkout
  obtain rfl : file = .text recipe := h
  simp [writeRecipe]

-- What is done to the configuration does not depend on the recipe.
theorem enablePlatforms_writeRecipe (checkout : Checkout) (content : String) (profile : Profile) :
    (checkout.writeRecipe content).enablePlatforms profile =
      ⟨(checkout.enablePlatforms profile).checkout.writeRecipe content,
        (checkout.enablePlatforms profile).result⟩ := by
  have hparse : (checkout.writeRecipe content).parseConfig = checkout.parseConfig := rfl
  rw [enablePlatforms, enablePlatforms, hparse]
  cases checkout.parseConfig with
  | error fault => rfl
  | ok config =>
      cases hconfig : (profile.enable config).result with
      | error fault => simp only [hconfig]
      | ok done =>
          simp only [hconfig]
          rfl

theorem not_isWrite_of_parseConfig (h : checkout.parseConfig = .error fault) : ¬ fault.IsWrite := by
  rintro ⟨role, path, cause, rfl⟩
  rw [parseConfig, readConfig] at h
  cases hread : checkout.config.read with
  | error unreadable => simp [hread, Except.mapError] at h
  | ok text =>
      simp only [hread, Except.mapError] at h
      split at h <;> cases h

theorem not_isWrite_of_enable {profile : Profile} {config : List (Yaml × Yaml)}
    (h : (profile.enable config).result = .error fault) : ¬ fault.IsWrite := by
  rintro ⟨role, path, cause, rfl⟩
  simp only [Profile.enable, Profile.openSection] at h
  split at h
  · rename_i hsection
    cases h
    split at hsection <;> cases hsection
  · cases h

theorem exists_read_of_parseConfig {config : List (Yaml × Yaml)} (h : checkout.parseConfig = .ok config) :
    ∃ text, checkout.config.read = .ok text := by
  rw [parseConfig, readConfig] at h
  cases hread : checkout.config.read with
  | error unreadable => simp [hread, Except.mapError] at h
  | ok text => exact ⟨text, rfl⟩

-- Up to its one write the configuration's file is only read.
theorem enablePlatforms_eq_error {profile : Profile}
    (h : (checkout.enablePlatforms profile).result = .error fault) :
    ¬ fault.IsWrite ∧ (checkout.enablePlatforms profile).checkout = checkout ∨
      ∃ content left cause, checkout.config = .unwritable content left cause ∧
        fault = .unwritable .feedstockConfig checkout.configPath cause ∧
        (checkout.enablePlatforms profile).checkout = checkout.spoilConfig left cause := by
  rw [enablePlatforms] at h ⊢
  cases hparse : checkout.parseConfig with
  | error unparsed =>
      rw [hparse] at h
      cases h
      exact .inl ⟨not_isWrite_of_parseConfig hparse, rfl⟩
  | ok config =>
      simp only [hparse] at h ⊢
      cases hresult : (profile.enable config).result with
      | error refused =>
          simp only [hresult] at h ⊢
          cases h
          exact .inl ⟨not_isWrite_of_enable hresult, trivial⟩
      | ok =>
          simp only [hresult] at h ⊢
          obtain ⟨text, hread⟩ := exists_read_of_parseConfig hparse
          rcases FileState.read_eq_ok_iff.mp hread with htext | ⟨left, cause, hfile⟩
          · simp [storeConfig, htext, FileState.writing, Except.mapError] at h
          · refine .inr ⟨text, left, cause, hfile, ?_⟩
            simp only [storeConfig, hfile] at h ⊢
            cases h
            exact ⟨rfl, rfl⟩

end Checkout

namespace Job

variable {job : Job} {feedstock : Feedstock} {checkout : Checkout} {recipe content left cause : String}
  {fault : Fault}

-- The profile of a job that enables platforms.
def profile? (job : Job) : Option Profile :=
  match job.kind with
  | .platforms profile .. => some profile
  | _ => none

theorem swapDependency_of_text (h : checkout.recipe = .text recipe) (pair : Swap) :
    job.swapDependency pair feedstock checkout =
      match renameDependency? pair.old pair.new recipe with
      | none => ⟨checkout, .ok .unchanged⟩
      | some renamed =>
        ⟨checkout.writeRecipe (updateCounter renamed job.counterChange),
          .ok (.migrated (job.identity feedstock))⟩ := by
  rw [swapDependency, Checkout.readRecipe_of_text h]
  cases hrenamed : renameDependency? pair.old pair.new recipe with
  | none => simp only [hrenamed]
  | some renamed =>
      have hwritten : (checkout.writeRecipe renamed).recipe = .text renamed := rfl
      simp only [hrenamed, Checkout.storeRecipe_of_text h, Checkout.changeCounter_of_text hwritten]
      rfl

theorem enablePlatforms_of_text (h : checkout.recipe = .text recipe) (profile : Profile) :
    job.enablePlatforms profile feedstock checkout =
      ⟨(checkout.enablePlatforms profile).checkout.writeRecipe (updateCounter recipe job.counterChange),
        (checkout.enablePlatforms profile).result.map fun _ => .migrated (job.identity feedstock)⟩ := by
  rw [enablePlatforms, Checkout.changeCounter_of_text h]
  simp only [Checkout.enablePlatforms_writeRecipe]

-- A recipe that cannot be read fails a migration before it has written anything.
theorem migrate_of_unreadable {unreadable : Fault} (h : checkout.readRecipe = .error unreadable)
    (hfault : (job.migrate feedstock checkout).result = .error fault) :
    fault = unreadable ∧ (job.migrate feedstock checkout).checkout = checkout := by
  rw [migrate] at hfault ⊢
  split at hfault
  · cases hfault
  · cases hfault
  · rw [swapDependency, h] at hfault ⊢
    cases hfault
    exact ⟨rfl, rfl⟩
  · rw [enablePlatforms, Checkout.changeCounter_of_unreadable h] at hfault ⊢
    cases hfault
    exact ⟨rfl, rfl⟩

theorem not_isWrite_of_unreadable (h : checkout.readRecipe = .error fault) : ¬ fault.IsWrite := by
  rintro ⟨role, path, cause, rfl⟩
  rw [Checkout.readRecipe] at h
  cases hread : checkout.recipe.read <;> simp [hread, Except.mapError] at h

-- A recipe that cannot be written fails every migration that comes to write it.
theorem migrate_of_unwritable (h : checkout.recipe = .unwritable content left cause)
    (hfault : (job.migrate feedstock checkout).result = .error fault) :
    fault = .unwritable .recipe checkout.recipePath cause ∧
      (job.migrate feedstock checkout).checkout = checkout.spoilRecipe left cause := by
  rw [migrate] at hfault ⊢
  split at hfault
  · cases hfault
  · cases hfault
  · rename_i pair _
    rw [swapDependency, Checkout.readRecipe_of_unwritable h] at hfault ⊢
    cases hrenamed : renameDependency? pair.old pair.new content with
    | none => simp [hrenamed] at hfault
    | some renamed =>
        simp only [hrenamed, Checkout.storeRecipe_of_unwritable h] at hfault ⊢
        cases hfault
        exact ⟨rfl, trivial⟩
  · simp only [enablePlatforms, Checkout.changeCounter_of_unwritable h] at hfault ⊢
    cases hfault
    exact ⟨rfl, trivial⟩

-- With a recipe to read and write, only the configuration is left to fail.
theorem migrate_eq_error_of_text (h : checkout.recipe = .text recipe) :
    (job.migrate feedstock checkout).result = .error fault ↔
      ∃ profile, job.profile? = some profile ∧
        (checkout.enablePlatforms profile).result = .error fault := by
  cases hkind : job.kind with
  | bookkeeping => simp [migrate, profile?, hkind]
  | wave name gate => simp [migrate, profile?, hkind]
  | swap pair =>
      simp only [migrate, profile?, hkind, swapDependency_of_text h]
      split <;> simp
  | platforms profile name gate targets =>
      simp only [migrate, profile?, hkind, enablePlatforms_of_text h]
      cases hresult : (checkout.enablePlatforms profile).result <;> simp [hresult, Except.map]

theorem migrate_of_profile {profile : Profile} (hprofile : job.profile? = some profile)
    (h : checkout.recipe = .text recipe) :
    (job.migrate feedstock checkout).checkout =
      (checkout.enablePlatforms profile).checkout.writeRecipe
        (updateCounter recipe job.counterChange) := by
  rw [profile?] at hprofile
  split at hprofile
  · rename_i hkind
    cases hprofile
    rw [migrate, hkind]
    simp only [enablePlatforms_of_text h]
  · cases hprofile

-- What a failed migration leaves of a checkout that it was able to write: all of it but for the
-- counter that a rebuild has renumbered by then.
structure Spares (job : Job) (checkout left : Checkout) : Prop where
  config : left.config = checkout.config
  recipeDir : left.recipeDir = checkout.recipeDir
  others : left.others = checkout.others
  differs : left ≠ checkout ↔ ∃ recipe, checkout.recipe = .text recipe ∧ job.profile? ≠ none ∧
    updateCounter recipe job.counterChange ≠ recipe
  recipe : ∀ recipe, checkout.recipe = .text recipe →
    left.recipe = .text (updateCounter recipe job.counterChange)

theorem spares_self (h : ∀ recipe, checkout.recipe ≠ .text recipe) : job.Spares checkout checkout where
  config := rfl
  recipeDir := rfl
  others := rfl
  differs := by simp [h]
  recipe recipe htext := absurd htext (h recipe)

theorem spares_writeRecipe (h : checkout.recipe = .text recipe) (hprofile : job.profile? ≠ none) :
    job.Spares checkout (checkout.writeRecipe (updateCounter recipe job.counterChange)) where
  config := rfl
  recipeDir := rfl
  others := rfl
  differs := by
    rw [ne_eq, Checkout.writeRecipe_eq_self_iff h]
    simp [h, hprofile]
  recipe other hother := by
    cases h.symm.trans hother
    rfl

-- What is left when a write fails: the file in question as the attempt leaves it. A rebuild has
-- renumbered the counter before it writes the configuration.
inductive Spoils (job : Job) (checkout : Checkout) : Fault → Checkout → Prop where
  | recipe {content left cause : String} (h : checkout.recipe = .unwritable content left cause) :
      Spoils job checkout (.unwritable .recipe checkout.recipePath cause)
        (checkout.spoilRecipe left cause)
  | config {recipe content left cause : String} (htext : checkout.recipe = .text recipe)
      (h : checkout.config = .unwritable content left cause) (hprofile : job.profile? ≠ none) :
      Spoils job checkout (.unwritable .feedstockConfig checkout.configPath cause)
        ((checkout.spoilConfig left cause).writeRecipe (updateCounter recipe job.counterChange))

-- A failed migration leaves the checkout as it was, but for the counter that a rebuild has
-- renumbered by then: it writes the recipe before it looks at the configuration. If it is a write
-- that fails, the file is left as the attempt leaves it.
theorem failed_migration (job : Job) (feedstock : Feedstock) (checkout : Checkout) (fault : Fault)
    (h : (job.migrate feedstock checkout).result = .error fault) :
    (¬ fault.IsWrite → job.Spares checkout (job.migrate feedstock checkout).checkout) ∧
    (fault.IsWrite → job.Spoils checkout fault (job.migrate feedstock checkout).checkout) := by
  cases hread : checkout.readRecipe with
  | error unreadable =>
      obtain ⟨rfl, hleft⟩ := migrate_of_unreadable hread h
      have hnone : ∀ recipe, checkout.recipe ≠ .text recipe := by
        intro recipe htext
        cases (Checkout.readRecipe_of_text htext).symm.trans hread
      rw [hleft]
      exact ⟨fun _ => spares_self hnone, fun hwrite => absurd hwrite (not_isWrite_of_unreadable hread)⟩
  | ok recipe =>
      rcases FileState.read_eq_ok_iff.mp (Checkout.readRecipe_eq_ok_iff.mp hread) with
        htext | ⟨left, cause, hfile⟩
      · obtain ⟨profile, hprofile, hresult⟩ := (migrate_eq_error_of_text htext).mp h
        have hsome : job.profile? ≠ none := by simp [hprofile]
        rw [migrate_of_profile hprofile htext]
        rcases Checkout.enablePlatforms_eq_error hresult with
          ⟨hwrite, hleft⟩ | ⟨content, left, cause, hfile, rfl, hleft⟩
        · rw [hleft]
          exact ⟨fun _ => spares_writeRecipe htext hsome, fun hnot => absurd hnot hwrite⟩
        · rw [hleft]
          exact ⟨fun hnot => absurd ⟨_, _, _, rfl⟩ hnot, fun _ => .config htext hfile hsome⟩
      · obtain ⟨rfl, hleft⟩ := migrate_of_unwritable hfile h
        rw [hleft]
        exact ⟨fun hnot => absurd ⟨_, _, _, rfl⟩ hnot, fun _ => .recipe hfile⟩

-- A rebuild for which there is nothing to bump, and a section that is not a mapping.
def spaced : Checkout :=
  ⟨"recipe", .text "build:\n  number:   5\n", .text "provider: azure\n", ∅⟩

def portJob : Job := rebuild .aarch64Ppc64le none .empty ⟨∅, ∅⟩ 0 []

theorem failed_migration_spaced :
    (portJob.migrate (.named "numpy") spaced).result = .error (.sectionNotMapping "provider") ∧
      portJob.Spares spaced (portJob.migrate (.named "numpy") spaced).checkout ∧
      (portJob.migrate (.named "numpy") spaced).checkout.config = .text "provider: azure\n" := by
  have hfault : (portJob.migrate (.named "numpy") spaced).result =
      .error (.sectionNotMapping "provider") := by decide +kernel
  have hspares : portJob.Spares spaced (portJob.migrate (.named "numpy") spaced).checkout :=
    (failed_migration portJob (.named "numpy") spaced _ hfault).1 (by rintro ⟨_, _, _, h⟩; cases h)
  exact ⟨hfault, hspares, hspares.config⟩

theorem failed_migration_rewrites_spaced :
    (portJob.migrate (.named "numpy") spaced).result = .error (.sectionNotMapping "provider") ∧
      (portJob.migrate (.named "numpy") spaced).checkout.recipe = .text "build:\n  number: 5\n" ∧
      (portJob.migrate (.named "numpy") spaced).checkout ≠ spaced := by
  refine ⟨?_, ?_, ?_⟩ <;> decide +kernel

end Job

end Rollout
