import Rollout.Calendar.Date

namespace Rollout

-- A moment in time: whole seconds since 1970-01-01 and nanoseconds within the
-- second. A leap second prolongs the second before it, with 10^9 nanoseconds or more.
structure Instant where
  seconds : Int
  nanos : Nat
deriving DecidableEq, Repr

namespace Instant

def secondsPerDay : Int := 86400

def nanosPerSecond : Nat := 1000000000

def day (instant : Instant) : Int := instant.seconds / secondsPerDay

def secondOfDay (instant : Instant) : Int := instant.seconds % secondsPerDay

def inLeapSecond (instant : Instant) : Bool := instant.nanos ≥ nanosPerSecond

-- Nanoseconds from `earlier` to `later`. A leap second that lies before the other
-- moment's time of day has passed in full and counts as one more second.
def elapsed (later earlier : Instant) : Int :=
  let leap : Int :=
    if later.secondOfDay > earlier.secondOfDay ∧ earlier.inLeapSecond then 1
    else if later.secondOfDay < earlier.secondOfDay ∧ later.inLeapSecond then -1
    else 0
  (later.seconds - earlier.seconds + leap) * nanosPerSecond + (later.nanos - earlier.nanos)

-- The range of moments that have a date.
def IsDated (instant : Instant) : Prop :=
  Date.dayNumber ⟨Date.leastYear, 1, 1⟩ * secondsPerDay ≤ instant.seconds ∧
  instant.seconds < (Date.dayNumber ⟨Date.greatestYear, 12, 31⟩ + 1) * secondsPerDay

instance (instant : Instant) : Decidable instant.IsDated := by
  unfold IsDated
  infer_instance

end Instant

end Rollout
