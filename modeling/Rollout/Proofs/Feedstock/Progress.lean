import Mathlib.Logic.Relation
import Rollout.Proofs.Feedstock
import Rollout.Proofs.Gate

namespace Rollout

-- What can become of an attempt on record: its pull request may be settled, and the time it
-- was opened at stays.
structure Attempt.Matures (before after : Attempt) : Prop where
  created : after.createdAt? = before.createdAt?
  settled : before.IsSettled → after.IsSettled

namespace Attempt.Matures

theorem refl (attempt : Attempt) : attempt.Matures attempt := ⟨rfl, id⟩

theorem trans {first second third : Attempt} (hleft : first.Matures second)
    (hright : second.Matures third) : first.Matures third :=
  ⟨hright.created.trans hleft.created, fun hs => hright.settled (hleft.settled hs)⟩

-- Nothing but the state of a pull request changes when it is settled.
theorem rehosted (attempt : Attempt) {state : PullState} (hs : state = .closed ∨ state = .merged) :
    attempt.Matures (attempt.rehosted (Hosting.withState state)) := by
  refine ⟨?_, fun _ => ?_⟩
  · unfold Attempt.createdAt? Attempt.rehosted Hosting.withState
    cases attempt.hosting <;> rfl
  · rcases hs with rfl | rfl
    · exact .inl rfl
    · exact .inr rfl

end Attempt.Matures

namespace Feedstock

-- One step by which a feedstock gets ahead: an attempt more is on record, a pull request is
-- settled, or the feedstock is archived.
inductive Progress : Feedstock → Feedstock → Prop where
  | attempted (feedstock : Feedstock) (attempt : Attempt) :
      Progress feedstock (feedstock.attempted attempt)
  | settled (feedstock : Feedstock) (index : Nat) (state : PullState)
      (hstate : state = .closed ∨ state = .merged) :
      Progress feedstock (feedstock.rehosted index (Hosting.withState state))
  | archived (feedstock : Feedstock) : Progress feedstock { feedstock with archived := true }

-- Any number of such steps, in any order.
def Progresses : Feedstock → Feedstock → Prop := Relation.ReflTransGen Progress

theorem Progress.branch {before after : Feedstock} (h : before.Progress after) :
    after.branch = before.branch := by
  cases h <;> rfl

theorem Progress.active {before after : Feedstock} (h : before.Progress after)
    (ha : after.archived = false) : before.archived = false := by
  cases h with
  | attempted attempt => exact ha
  | settled index state hstate => exact ha
  | archived => cases ha

-- Attempts are put on record last, so the first one with an identity stays the first one.
theorem Progress.exists_find? {before after : Feedstock} (h : before.Progress after)
    {identity : Identity} {attempt : Attempt} (hf : before.find? identity = some attempt) :
    ∃ later, after.find? identity = some later ∧ attempt.Matures later := by
  cases h with
  | attempted added =>
      refine ⟨attempt, ?_, .refl attempt⟩
      rw [find?_attempted, hf]
      rfl
  | settled index state hstate =>
      rcases before.find?_rehosted index (Hosting.withState state) identity with hsame | hchanged
      · exact ⟨attempt, hsame.trans hf, .refl attempt⟩
      · rw [hf] at hchanged
        exact ⟨_, hchanged, .rehosted attempt hstate⟩
  | archived => exact ⟨attempt, hf, .refl attempt⟩

namespace Progresses

theorem refl (feedstock : Feedstock) : feedstock.Progresses feedstock := Relation.ReflTransGen.refl

variable {before after : Feedstock} (h : before.Progresses after)
include h

theorem branch : after.branch = before.branch := by
  induction h with
  | refl => rfl
  | tail _ hstep ih => exact hstep.branch.trans ih

theorem active (ha : after.archived = false) : before.archived = false := by
  induction h with
  | refl => exact ha
  | tail _ hstep ih => exact ih (hstep.active ha)

theorem exists_find? {identity : Identity} {attempt : Attempt}
    (hf : before.find? identity = some attempt) :
    ∃ later, after.find? identity = some later ∧ attempt.Matures later := by
  induction h with
  | refl => exact ⟨attempt, hf, .refl attempt⟩
  | tail _ hstep ih =>
      obtain ⟨between, hb, hleft⟩ := ih
      obtain ⟨later, hl, hright⟩ := hstep.exists_find? hb
      exact ⟨later, hl, hleft.trans hright⟩

end Progresses

end Feedstock

end Rollout
