import Rollout.Job
import Rollout.Text.Blank
import Rollout.Word

namespace Rollout

-- Settings that all jobs of a manifest share.
structure Pace where
  -- days after which an open pull request counts as stale
  stalenessDays : Int
  -- the feedstock that may go ahead of stale dependencies
  pinning : String
  -- what a migration adds to the build counter
  increment : UInt64
deriving DecidableEq

-- A job that waits for dependencies, as it is declared.
structure WaveEntry where
  name : Option String
  version : UInt32
  objectVersion : Option UInt32
  topLevel : List String
  cycles : List (List String)
  ignored : NameMap NameSet
  prLimit : Nat
deriving DecidableEq

-- A replacement of a dependency, as it is declared.
structure SwapEntry where
  old : String
  new : String
  rationale : String
  prLimit : Nat
deriving DecidableEq

-- A rebuild for new platforms, as it is declared.
structure PlatformsEntry where
  profile : Profile
  name : Option String
  scope : PlatformScope
  prLimit : Nat
deriving DecidableEq

-- The jobs declared in a migrations file.
structure Manifest where
  pace : Pace
  waves : List WaveEntry
  swaps : List SwapEntry
  platforms : List PlatformsEntry
deriving DecidableEq

namespace Pace

def default : Pace := ⟨14, Gate.defaultPinning, 1⟩

def secondsPerDay : Int := 86400

-- The longest window in days: in milliseconds it has to fit 64 bits.
def longestWindow : Int := ((Word.half : Int) - 1) / 1000 / secondsPerDay

-- The staleness window in nanoseconds.
def window (pace : Pace) : Except Fault Int :=
  if longestWindow < pace.stalenessDays then .error (.windowTooLong pace.stalenessDays)
  else .ok (pace.stalenessDays * secondsPerDay * Instant.nanosPerSecond)

def fault? (pace : Pace) : Option Fault :=
  if pace.stalenessDays ≤ 0 then some (.stalenessNotPositive pace.stalenessDays)
  else if isBlankText pace.pinning then some .pinningEmpty
  else none

end Pace

namespace WaveEntry

def fault? (entry : WaveEntry) : Option Fault :=
  if entry.name.any isBlankText then some .jobNameEmpty else none

def job (entry : WaveEntry) (pace : Pace) (total : Graph) : Except Fault Job :=
  pace.window.map fun window => {
    settings := ⟨entry.version, entry.objectVersion, entry.prLimit, true, pace.increment, []⟩
    kind := .wave entry.name {
      graph := total
      topLevel := NameSet.ofList entry.topLevel
      cycles := NameSet.ofList entry.cycles.flatten
      ignored := entry.ignored
      window := window
      pinning := pace.pinning } }

end WaveEntry

namespace SwapEntry

def fault? (entry : SwapEntry) : Option Fault :=
  if isBlankText entry.old || isBlankText entry.new then some .replacementIncomplete
  else if entry.old = entry.new then some (.replacementByItself entry.old)
  else none

def job (entry : SwapEntry) (pace : Pace) : Except Fault Job :=
  (Swap.make entry.old entry.new entry.rationale).map fun pair => {
    settings := ⟨0, none, entry.prLimit, true, pace.increment, []⟩
    kind := .swap pair }

end SwapEntry

namespace PlatformsEntry

def job (entry : PlatformsEntry) (total : Graph) : Job :=
  .rebuild entry.profile entry.name total entry.scope entry.prLimit []

end PlatformsEntry

namespace Manifest

-- The first thing that is wrong with a manifest: in its settings, in the names of its
-- jobs, in its replacements.
def fault? (manifest : Manifest) : Option Fault :=
  manifest.pace.fault?.or
    ((manifest.waves.findSome? WaveEntry.fault?).or (manifest.swaps.findSome? SwapEntry.fault?))

def jobCount (manifest : Manifest) : Nat :=
  manifest.waves.length + manifest.swaps.length + manifest.platforms.length

-- The declared jobs on a shared graph: waves, replacements and rebuilds, each in the
-- order of the file.
def jobs (manifest : Manifest) (total : Graph) : Except Fault (List Job) := do
  let waves ← manifest.waves.mapM fun entry => entry.job manifest.pace total
  let swaps ← manifest.swaps.mapM fun entry => entry.job manifest.pace
  return waves ++ swaps ++ manifest.platforms.map fun entry => entry.job total

end Manifest

end Rollout
