import Mathlib.Data.List.Forall2
import Mathlib.Logic.Relation
import Rollout.Proofs.Feedstock
import Rollout.Proofs.Gate

namespace Rollout

namespace Hosting

-- What the hosting site said is lost, or something of no use has taken its place.
inductive Lapse : Option Hosting → Option Hosting → Prop where
  | dropped (hosting : Hosting) : Lapse (some hosting) none
  | state (hosting : Hosting) (state : Option PullState)
      (hstate : state = none ∨ state = some .opened ∨ state = some .unknown) :
      Lapse (some hosting) (some { hosting with state := state })
  | createdAt (hosting : Hosting) (text : Option String)
      (htext : text.bind Instant.ofText? = none) :
      Lapse (some hosting) (some { hosting with createdAt := text })

variable {before after : Option Hosting} (h : Lapse before after)
include h

-- Nothing becomes known by a lapse: neither that a pull request is settled nor its time.
theorem Lapse.settled
    (hs : after.bind Hosting.state = some .closed ∨ after.bind Hosting.state = some .merged) :
    before.bind Hosting.state = some .closed ∨ before.bind Hosting.state = some .merged := by
  cases h with
  | dropped hosting => rcases hs with hs | hs <;> cases hs
  | state hosting state hstate =>
      rcases hstate with rfl | rfl | rfl <;> rcases hs with hs | hs <;> cases hs
  | createdAt hosting text htext => exact hs

theorem Lapse.created {instant : Instant}
    (hc : (after.bind Hosting.createdAt).bind Instant.ofText? = some instant) :
    (before.bind Hosting.createdAt).bind Instant.ofText? = some instant := by
  cases h with
  | dropped hosting => cases hc
  | state hosting state hstate => exact hc
  | createdAt hosting text htext => cases htext.symm.trans hc

end Hosting

-- The record of a pull request before and after any number of lapses.
structure Attempt.Lapses (before after : Attempt) : Prop where
  data : before.data = after.data
  keys : before.keys = after.keys
  hosting : Relation.ReflTransGen Hosting.Lapse before.hosting after.hosting

namespace Attempt.Lapses

theorem refl (attempt : Attempt) : attempt.Lapses attempt := ⟨rfl, rfl, .refl⟩

variable {before after : Attempt} (h : before.Lapses after)
include h

theorem matchesIdentity_eq (identity : Identity) :
    before.matchesIdentity identity = after.matchesIdentity identity := by
  rw [matchesIdentity, matchesIdentity, h.data]

theorem isSettled (hs : after.IsSettled) : before.IsSettled := by
  have hrun := h.hosting
  unfold IsSettled at *
  generalize after.hosting = known at *
  induction hrun with
  | refl => exact hs
  | tail _ hlapse ih => exact ih (hlapse.settled hs)

theorem createdAt?_eq {instant : Instant} (hc : after.createdAt? = some instant) :
    before.createdAt? = some instant := by
  have hrun := h.hosting
  unfold createdAt? at *
  generalize after.hosting = known at *
  induction hrun with
  | refl => exact hc
  | tail _ hlapse ih => exact ih (hlapse.created hc)

end Attempt.Lapses

-- The record that counts for an identity stays the same one.
theorem findAttempt?_lapses {attempts lapsed : List Attempt}
    (h : List.Forall₂ Attempt.Lapses attempts lapsed) (identity : Identity) :
    findAttempt? attempts identity = none ∧ findAttempt? lapsed identity = none ∨
      ∃ attempt known, findAttempt? attempts identity = some attempt ∧
        findAttempt? lapsed identity = some known ∧ attempt.Lapses known := by
  unfold findAttempt?
  induction h with
  | nil => exact .inl ⟨rfl, rfl⟩
  | @cons attempt known _ _ hlapses _ ih =>
      rw [List.find?_cons, List.find?_cons, hlapses.matchesIdentity_eq]
      cases known.matchesIdentity identity with
      | true => exact .inr ⟨attempt, known, rfl, rfl, hlapses⟩
      | false => exact ih

-- Some records of a feedstock have lapsed. All else is as it was.
def Feedstock.Lapses (before after : Feedstock) : Prop :=
  ∃ attempts, List.Forall₂ Attempt.Lapses before.attempts attempts ∧
    after = { before with attempts := attempts }

namespace Feedstock.Lapses

theorem refl (feedstock : Feedstock) : feedstock.Lapses feedstock :=
  ⟨feedstock.attempts, List.forall₂_same.mpr fun attempt _ => .refl attempt, rfl⟩

-- Any one record may lapse on its own.
theorem rehosted (feedstock : Feedstock) (index : Nat) {change : Option Hosting → Option Hosting}
    (hchange : ∀ hosting, Relation.ReflTransGen Hosting.Lapse hosting (change hosting)) :
    feedstock.Lapses (feedstock.rehosted index change) := by
  refine ⟨_, List.forall₂_iff_get.mpr ⟨(List.length_modify ..).symm, fun i hi hmodified => ?_⟩, rfl⟩
  rw [List.get_eq_getElem, List.get_eq_getElem, List.getElem_modify]
  split
  · exact ⟨rfl, rfl, hchange _⟩
  · exact .refl _

variable {before after : Feedstock} (h : before.Lapses after)
include h

theorem isSome_find?_eq (identity : Identity) :
    (before.find? identity).isSome = (after.find? identity).isSome := by
  obtain ⟨attempts, hattempts, rfl⟩ := h
  unfold find?
  rcases findAttempt?_lapses hattempts identity with ⟨hb, ha⟩ | ⟨attempt, known, hb, ha, -⟩ <;>
    simp [hb, ha]

theorem exists_of_find? {identity : Identity} {known : Attempt}
    (hf : after.find? identity = some known) :
    ∃ attempt, before.find? identity = some attempt ∧ attempt.Lapses known := by
  obtain ⟨attempts, hattempts, rfl⟩ := h
  unfold find? at *
  rcases findAttempt?_lapses hattempts identity with ⟨-, ha⟩ | ⟨attempt, other, hb, ha, hlapses⟩
  · cases ha.symm.trans hf
  · obtain rfl : other = known := Option.some.inj (ha.symm.trans hf)
    exact ⟨attempt, hb, hlapses⟩

end Feedstock.Lapses

end Rollout
