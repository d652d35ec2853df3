import Mathlib.Tactic.TFAE
import Rollout.Job
import Rollout.Proofs.Identity

namespace Rollout

-- Two branches that identities do not tell apart.
def SameBranch (branch other : String) : Prop :=
  branch = other ∨ (branch ∈ defaultBranchNames ∧ other ∈ defaultBranchNames)

theorem filter_branch_eq_iff (branch other : String) :
    (some branch).filter (fun name => !defaultBranchNames.contains name) =
        (some other).filter (fun name => !defaultBranchNames.contains name) ↔
      SameBranch branch other := by
  have hne (h : branch ∈ defaultBranchNames ↔ other ∉ defaultBranchNames) : branch ≠ other := by
    rintro rfl
    exact iff_not_self h
  by_cases hbranch : branch ∈ defaultBranchNames <;>
    by_cases hother : other ∈ defaultBranchNames <;>
    simp_all [Option.filter, SameBranch]

-- A version is kept unless it is zero, which is what a missing one is read as.
theorem filter_version (version : Option UInt32) :
    version.filter (· != 0) = if version.getD 0 = 0 then none else some (version.getD 0) := by
  cases version with
  | none => rfl
  | some version => by_cases h : version = 0 <;> simp [Option.filter, h]

theorem filter_version_eq_iff (version other : Option UInt32) :
    version.filter (· != 0) = other.filter (· != 0) ↔ version.getD 0 = other.getD 0 := by
  rw [filter_version, filter_version]
  constructor
  · intro h
    split at h <;> split at h <;> simp_all
  · intro h
    rw [h]

namespace Job

-- What the identities of two jobs' migrations depend on is the same.
structure Agree (job other : Job) (feedstock second : Feedstock) : Prop where
  migratorName : job.migratorName = other.migratorName
  version : job.settings.version = other.settings.version
  -- zero is read as no version
  objectVersion : job.settings.objectVersion.getD 0 = other.settings.objectVersion.getD 0
  branch : SameBranch feedstock.branch second.branch
  stamp : job.stamp = other.stamp

theorem identity_eq_iff (job other : Job) (feedstock second : Feedstock) :
    job.identity feedstock = other.identity second ↔ job.Agree other feedstock second := by
  simp only [identity, Identity.make, Identity.mk.injEq, filter_version_eq_iff,
    filter_branch_eq_iff, true_and]
  constructor
  · rintro ⟨hname, hversion, hobject, hbranch, hstamp⟩
    exact ⟨hname, hversion, hobject, hbranch, hstamp⟩
  · rintro ⟨hname, hversion, hobject, hbranch, hstamp⟩
    exact ⟨hname, hversion, hobject, hbranch, hstamp⟩

-- Whether two migrations count as one: it is the same to compare their texts, to look the one
-- up in a record of the other, and to compare what the identities are made of.
theorem identity_agreement (job other : Job) (feedstock second : Feedstock)
    (hosting : Option Hosting) :
    List.TFAE [
      (job.identity feedstock).canonicalText = (other.identity second).canonicalText,
      (Attempt.ofIdentity (job.identity feedstock) hosting).matchesIdentity
        (other.identity second) = true,
      job.Agree other feedstock second] := by
  tfae_have 1 ↔ 3 := by rw [Identity.canonicalText_inj, identity_eq_iff]
  tfae_have 2 ↔ 3 := by rw [Identity.matchesIdentity_ofIdentity_iff, identity_eq_iff]
  tfae_finish

end Job

end Rollout
