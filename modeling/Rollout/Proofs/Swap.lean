import Mathlib.Tactic.TFAE
import Rollout.PullRequest
import Rollout.Proofs.Identity

namespace Rollout

namespace Swap

def SamePair (swap other : Swap) : Prop := swap.old = other.old ∧ swap.new = other.new

-- One name cut at two places, for `swap` at the earlier one. Between the cuts there is a part
-- of the name, or the two separators share a hyphen.
inductive CutsBefore (swap other : Swap) : Prop where
  | apart (middle : String) (hold : other.old = swap.old ++ "-to-" ++ middle)
      (hnew : swap.new = middle ++ "-to-" ++ other.new)
  | overlapping (hold : other.old = swap.old ++ "-to") (hnew : swap.new = "to-" ++ other.new)

theorem CutsBefore.name_eq {swap other : Swap} (h : swap.CutsBefore other) :
    swap.name = other.name := by
  cases h with
  | apart middle hold hnew => simp only [name, hold, hnew, String.append_assoc]
  | overlapping hold hnew =>
      rw [name, name, hold, hnew, ← String.toList_inj]
      simp

-- The separator ends as it begins with one hyphen only, so two of them overlap in that or not
-- at all.
theorem separator_cases {middle before after : List Char}
    (h : "-to-".toList ++ before = middle ++ ("-to-".toList ++ after)) :
    (middle = [] ∧ before = after) ∨
      (middle = "-to".toList ∧ before = "to-".toList ++ after) ∨
      ∃ rest, middle = "-to-".toList ++ rest ∧ before = rest ++ ("-to-".toList ++ after) := by
  match middle with
  | [] => exact .inl ⟨rfl, List.append_cancel_left h⟩
  | [_] => simp at h
  | [_, _] => simp at h
  | [first, second, third] =>
      obtain ⟨rfl, rfl, rfl, hbefore⟩ :
          '-' = first ∧ 't' = second ∧ 'o' = third ∧ before = "to-".toList ++ after := by
        simpa using h
      exact .inr (.inl ⟨rfl, hbefore⟩)
  | first :: second :: third :: fourth :: rest =>
      obtain ⟨rfl, rfl, rfl, rfl, hbefore⟩ :
          '-' = first ∧ 't' = second ∧ 'o' = third ∧ '-' = fourth ∧
            before = rest ++ ("-to-".toList ++ after) := by
        simpa using h
      exact .inr (.inr ⟨rest, rfl, hbefore⟩)

theorem cut_cases {swap other : Swap} {middle : List Char}
    (hold : other.old.toList = swap.old.toList ++ middle)
    (hnew : "-to-".toList ++ swap.new.toList = middle ++ ("-to-".toList ++ other.new.toList)) :
    swap.SamePair other ∨ swap.CutsBefore other := by
  obtain ⟨rfl, hsame⟩ | ⟨rfl, hshared⟩ | ⟨rest, rfl, hrest⟩ := separator_cases hnew
  · rw [List.append_nil] at hold
    exact .inl ⟨String.toList_inj.mp hold.symm, String.toList_inj.mp hsame⟩
  · refine .inr (.overlapping ?_ ?_)
    · rw [← String.toList_inj, hold, String.toList_append]
    · rw [← String.toList_inj, hshared, String.toList_append]
  · refine .inr (.apart (String.ofList rest) ?_ ?_)
    · simp [← String.toList_inj, hold]
    · simp [← String.toList_inj, hrest]

-- A name says which pair it is for up to the place where it is cut.
theorem name_eq_iff (swap other : Swap) :
    swap.name = other.name ↔
      swap.SamePair other ∨ swap.CutsBefore other ∨ other.CutsBefore swap := by
  constructor
  · intro h
    have hchars : swap.old.toList ++ ("-to-".toList ++ swap.new.toList) =
        other.old.toList ++ ("-to-".toList ++ other.new.toList) := by
      simpa only [name, String.toList_append, List.append_assoc] using congrArg String.toList h
    obtain ⟨middle, hold, hnew⟩ | ⟨middle, hold, hnew⟩ := List.append_eq_append_iff.mp hchars
    · exact (cut_cases hold hnew).imp_right .inl
    · obtain ⟨hsameOld, hsameNew⟩ | hcuts := cut_cases hold hnew
      · exact .inl ⟨hsameOld.symm, hsameNew.symm⟩
      · exact .inr (.inr hcuts)
  · rintro (⟨hold, hnew⟩ | hcuts | hcuts)
    · rw [name, name, hold, hnew]
    · exact hcuts.name_eq
    · exact hcuts.name_eq.symm

-- The cuts need not lie apart.
example : name ⟨"a", "to-b", "", by decide, by decide, by decide⟩ =
    name ⟨"a-to", "b", "", by decide, by decide, by decide⟩ := rfl

-- The job that replaces one package by another.
def job (swap : Swap) (settings : Settings) : Job := ⟨settings, .swap swap⟩

theorem identity_job_eq_iff (swap other : Swap) (settings : Settings)
    {feedstock second : Feedstock} (hbranch : feedstock.branch = second.branch) :
    (swap.job settings).identity feedstock = (other.job settings).identity second ↔
      swap.name = other.name := by
  simp [Job.identity, Identity.make, Job.migratorName, Job.stamp, job, hbranch]

theorem branch_ofJob_eq_iff (swap other : Swap) (settings : Settings)
    (runUrl secondUrl : Option String) :
    (PullRequest.ofJob (swap.job settings) runUrl).branch =
        (PullRequest.ofJob (other.job settings) secondUrl).branch ↔
      swap.name = other.name := by
  simp [PullRequest.ofJob, job]

-- When two replacements with the same settings are taken for one: by their identities, by the
-- record that one of them left and by the branch of their pull requests alike.
theorem replacements_confused_iff (swap other : Swap) (settings : Settings)
    (feedstock second : Feedstock) (hbranch : feedstock.branch = second.branch)
    (hosting : Option Hosting) (runUrl secondUrl : Option String) :
    List.TFAE [
      (swap.job settings).identity feedstock = (other.job settings).identity second,
      (Attempt.ofIdentity ((swap.job settings).identity feedstock) hosting).matchesIdentity
        ((other.job settings).identity second) = true,
      (PullRequest.ofJob (swap.job settings) runUrl).branch =
        (PullRequest.ofJob (other.job settings) secondUrl).branch,
      swap.SamePair other ∨ swap.CutsBefore other ∨ other.CutsBefore swap] := by
  tfae_have 1 ↔ 4 := by rw [swap.identity_job_eq_iff other settings hbranch, name_eq_iff]
  tfae_have 2 ↔ 1 := Identity.matchesIdentity_ofIdentity_iff hosting
  tfae_have 3 ↔ 4 := by rw [branch_ofJob_eq_iff, name_eq_iff]
  tfae_finish

-- Two replacements that have nothing to do with each other.
def yaml : Swap := ⟨"yaml", "json-to-xml", "", by decide, by decide, by decide⟩

def converter : Swap := ⟨"yaml-to-json", "xml", "", by decide, by decide, by decide⟩

theorem replacements_confused_yaml :
    (Feedstock.named "n").branch = (Feedstock.named "n").branch ∧ yaml.CutsBefore converter ∧
      (yaml.job (.ofVersion 0)).identity (.named "n") =
        (converter.job (.ofVersion 0)).identity (.named "n") := by
  have hcuts : yaml.CutsBefore converter := .apart "json" rfl rfl
  have htfae := replacements_confused_iff yaml converter (.ofVersion 0) (.named "n") (.named "n")
    rfl none none none
  exact ⟨rfl, hcuts, (htfae.out 3 0).mp (Or.inr (Or.inl hcuts))⟩

-- A feedstock that asks for the converter.
def converting : Feedstock :=
  { Feedstock.named "n" with requirements := ⟨∅, NameSet.ofList ["yaml-to-json"], ∅, ∅⟩ }

-- Once the other replacement is on record the converter is not replaced any more.
theorem converter_taken_for_yaml :
    make "yaml" "json-to-xml" "" = .ok yaml ∧ make "yaml-to-json" "xml" "" = .ok converter ∧
      yaml.old ≠ converter.old ∧ yaml.new ≠ converter.new ∧
      (yaml.job (.ofVersion 0)).identity converting =
        (converter.job (.ofVersion 0)).identity converting ∧
      (PullRequest.ofJob (yaml.job (.ofVersion 0)) none).branch =
        (PullRequest.ofJob (converter.job (.ofVersion 0)) none).branch ∧
      (converter.job (.ofVersion 0)).verdict ⟨0, 0⟩ converting = .ok .proceed ∧
      (converter.job (.ofVersion 0)).verdict ⟨0, 0⟩ (converting.attempted
        (.ofIdentity ((yaml.job (.ofVersion 0)).identity converting) none)) =
          .ok (.skip .alreadyMigrated) := by
  refine ⟨rfl, rfl, by decide, by decide, by decide, by decide, by decide, by decide⟩

end Swap

end Rollout
