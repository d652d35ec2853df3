namespace Rollout

-- How a build number follows from the one before it.
inductive BuildNumber where
  -- set it to this value
  | exact (value : UInt64)
  -- add this to it, stopping at the largest build number
  | bump (increment : UInt64)
deriving DecidableEq, Repr

namespace BuildNumber

def largest : UInt64 := 0xFFFFFFFFFFFFFFFF

def apply (change : BuildNumber) (old : UInt64) : UInt64 :=
  match change with
  | .exact value => value
  | .bump increment =>
    if old.toNat + increment.toNat < UInt64.size then old + increment else largest

theorem toNat_apply_bump (increment old : UInt64) :
    ((BuildNumber.bump increment).apply old).toNat = min (old.toNat + increment.toNat) (UInt64.size - 1) := by
  simp only [apply]
  split
  · rename_i h
    rw [UInt64.toNat_add, Nat.mod_eq_of_lt h]
    omega
  · rename_i h
    have : largest.toNat = UInt64.size - 1 := by decide
    omega

end BuildNumber

end Rollout
