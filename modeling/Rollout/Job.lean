import Rollout.Gate
import Rollout.Piggyback
import Rollout.PlatformGraph
import Rollout.Schedule
import Rollout.Swap

namespace Rollout

-- What all jobs can be set to.
structure Settings where
  -- a new version makes every earlier identity of the job's kind invalid
  version : UInt32
  -- a new version makes the earlier identities of this job invalid
  objectVersion : Option UInt32
  -- how many pull requests a run may open; zero is no limit
  prLimit : Nat
  checkSolvable : Bool
  -- what a migration adds to the build counter
  increment : UInt64
  piggybacks : List Piggyback

namespace Settings

def ofVersion (version : UInt32) : Settings := ⟨version, none, 0, true, 1, []⟩

end Settings

-- The kinds of jobs.
inductive JobKind where
  -- records a migration and changes no file
  | bookkeeping
  -- waits for dependencies
  | wave (name : Option String) (gate : Gate)
  -- replaces a dependency
  | swap (pair : Swap)
  -- enables build platforms, waiting for dependencies in a graph of its own
  | platforms (profile : Profile) (name : Option String) (gate : Gate) (targets : NameSet)

-- A migration to be rolled out across feedstocks.
structure Job where
  settings : Settings
  kind : JobKind

namespace Job

-- A rebuild for a profile's platforms, on a graph derived from the shared one.
def rebuild (profile : Profile) (name : Option String) (total : Graph) (scope : PlatformScope)
    (prLimit : Nat) (piggybacks : List Piggyback) : Job where
  settings := ⟨1, none, prLimit, false, 0, piggybacks⟩
  kind := .platforms profile name (Gate.ofGraph (total.platformGraph profile scope)) scope.allTargets

def migratorName (job : Job) : String :=
  match job.kind with
  | .bookkeeping => "Migrator"
  | .wave .. => "GraphMigrator"
  | .swap _ => "Replacement"
  | .platforms profile .. => profile.migratorName

def stamp (job : Job) : Stamp :=
  match job.kind with
  | .bookkeeping => .absent
  | .wave name _ => .ofOption name
  | .swap pair => .named pair.name
  | .platforms _ name .. => .ofOption name

-- The name a job is chosen by: its own, or that of its kind.
def key (job : Job) : String :=
  match job.stamp with
  | .named name => name
  | _ => job.migratorName

def description (job : Job) : String :=
  match job.kind with
  | .bookkeeping => "Base class for Migrators"
  | .wave .. => ""
  | .swap _ => "Replace one dependency with another"
  | .platforms .. => "Enable additional build platforms"

def gate? (job : Job) : Option Gate :=
  match job.kind with
  | .wave _ gate => some gate
  | .platforms _ _ gate _ => some gate
  | _ => none

-- The graph whose feedstocks a job looks at.
def workingGraph (job : Job) (total : Graph) : Graph :=
  match job.gate? with
  | some gate => gate.graph
  | none => total

-- The identity of the job's migration of a feedstock.
def identity (job : Job) (feedstock : Feedstock) : Identity :=
  .make job.migratorName job.settings.version job.settings.objectVersion (some feedstock.branch)
    job.stamp

-- The reasons for being bad that do not stop a job.
def tolerance (job : Job) : Tolerance :=
  match job.gate? with
  | some _ => Gate.tolerance
  | none => .anyReason

-- What rules a feedstock out for every kind of job.
def screen (job : Job) (feedstock : Feedstock) : Option SkipReason :=
  if feedstock.archived then some .archived
  else if (feedstock.find? (job.identity feedstock)).isSome then some .alreadyMigrated
  else if feedstock.standing.blocks job.tolerance then some .bad
  else if feedstock.parsingError then some .parsingError
  else none

-- What a job decides about a feedstock at a given time.
def verdict (job : Job) (now : Instant) (feedstock : Feedstock) : Except Fault Verdict :=
  match job.screen feedstock with
  | some reason => .ok (.skip reason)
  | none =>
    match job.kind with
    | .bookkeeping => .ok .proceed
    | .wave _ gate => gate.verdict job.identity now feedstock
    | .swap pair =>
      .ok (if feedstock.requirements.mentions (NameSet.ofList [pair.old]) then .proceed
        else .skip .requirementNotUsed)
    | .platforms _ _ gate _ => gate.verdict job.identity now feedstock

-- The order in which eligible feedstocks are visited. A replacement needs none.
def order (job : Job) (eligible : Graph) : List String :=
  match job.kind with
  | .bookkeeping => eligible.schedule eligible.topLevel ∅
  | .wave _ gate =>
    let declared := NameSet.ofList (gate.topLevel.toList.filter eligible.contains)
    eligible.schedule (eligible.topLevel ∪ declared) gate.cycles
  | .swap _ => eligible.names
  | .platforms _ _ gate _ => eligible.schedule eligible.topLevel gate.cycles

def counterChange (job : Job) : BuildNumber := .bump job.settings.increment

-- The branches a migration may be applied to. A list that cannot be read leaves the
-- default branch only.
def branches (feedstock : Feedstock) : List String :=
  defaultBranch :: match feedstock.extraBranches with
    | .ok names => names
    | .error _ => []

-- The feedstocks that depend directly on one, at most `limit` of them.
def children (gate : Gate) (name : String) (limit : Nat) : List String :=
  (gate.graph.dependents name).toList.take limit

end Job

end Rollout
