import Rollout.Job
import Rollout.Yaml.Reader
import Rollout.Yaml.Writer

namespace Rollout

-- How a migration of a checkout ends if nothing fails.
inductive Outcome where
  | migrated (identity : Identity)
  -- there was nothing to change
  | unchanged
deriving DecidableEq, Repr

namespace Checkout

-- The feedstock's configuration; a document without a value counts as empty.
def parseConfig (checkout : Checkout) : Except Fault (List (Yaml × Yaml)) :=
  match checkout.readConfig with
  | .error fault => .error fault
  | .ok text =>
    match Yaml.ofText? text with
    | none => .error .notYaml
    | some .null => .ok []
    | some (.mapping entries) => .ok entries
    | some _ => .error (.configNotMapping checkout.configPath)

-- The configuration with a profile's platforms enabled. It is written only if that works.
def enablePlatforms (checkout : Checkout) (profile : Profile) : Worked Unit :=
  match checkout.parseConfig with
  | .error fault => ⟨checkout, .error fault⟩
  | .ok config =>
    let edited := profile.enable config
    match edited.result with
    | .error fault => ⟨checkout, .error fault⟩
    | .ok () => checkout.storeConfig (Yaml.mappingText edited.config)

end Checkout

namespace Job

-- The dependency renamed and the build counter changed, if a line declares it.
def swapDependency (job : Job) (pair : Swap) (feedstock : Feedstock) (checkout : Checkout) :
    Worked Outcome :=
  match checkout.readRecipe with
  | .error fault => ⟨checkout, .error fault⟩
  | .ok recipe =>
    match renameDependency? pair.old pair.new recipe with
    | none => ⟨checkout, .ok .unchanged⟩
    | some renamed =>
      let stored := checkout.storeRecipe renamed
      match stored.result with
      | .error fault => ⟨stored.checkout, .error fault⟩
      | .ok () =>
        let counted := stored.checkout.changeCounter job.counterChange
        ⟨counted.checkout, counted.result.map fun _ => .migrated (job.identity feedstock)⟩

-- The build counter changed and after that the platforms enabled. A configuration
-- that cannot be changed does not bring the counter back.
def enablePlatforms (job : Job) (profile : Profile) (feedstock : Feedstock)
    (checkout : Checkout) : Worked Outcome :=
  let counted := checkout.changeCounter job.counterChange
  match counted.result with
  | .error fault => ⟨counted.checkout, .error fault⟩
  | .ok () =>
    let enabled := counted.checkout.enablePlatforms profile
    ⟨enabled.checkout, enabled.result.map fun _ => .migrated (job.identity feedstock)⟩

-- The job's own change of a checkout.
def migrate (job : Job) (feedstock : Feedstock) (checkout : Checkout) : Worked Outcome :=
  match job.kind with
  | .bookkeeping | .wave .. => ⟨checkout, .ok (.migrated (job.identity feedstock))⟩
  | .swap pair => job.swapDependency pair feedstock checkout
  | .platforms profile .. => job.enablePlatforms profile feedstock checkout

-- A migration with its piggyback steps: those before it, the job's own change, and
-- those after it if something changed. The first failure ends the run.
def run (job : Job) (feedstock : Feedstock) (checkout : Checkout) : Transcript Outcome :=
  let before := Piggyback.runAll feedstock (job.settings.piggybacks.filter (!·.after)) checkout
  match before.result with
  | .error fault => ⟨before.ran, before.checkout, .error fault⟩
  | .ok () =>
    let worked := job.migrate feedstock before.checkout
    match worked.result with
    | .error fault => ⟨before.ran, worked.checkout, .error fault⟩
    | .ok .unchanged => ⟨before.ran, worked.checkout, .ok .unchanged⟩
    | .ok (.migrated identity) =>
      let after := Piggyback.runAll feedstock (job.settings.piggybacks.filter (·.after)) worked.checkout
      ⟨before.ran ++ after.ran, after.checkout, after.result.map fun _ => .migrated identity⟩

end Job

end Rollout
