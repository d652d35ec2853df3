import Rollout.Feedstock

namespace Rollout

variable {α : Type} (p : α → Bool) (f : α → α)

-- A change that a test does not see leaves the first element that passes where it is.
theorem find?_modify (hf : ∀ a, p (f a) = p a) (items : List α) (i : Nat) :
    (items.modify i f).find? p = items.find? p ∨
      (items.modify i f).find? p = (items.find? p).map f := by
  induction items generalizing i with
  | nil => simp
  | cons a rest ih =>
      cases i with
      | zero =>
          rw [List.modify_zero_cons]
          cases hp : p a with
          | true => exact .inr (by simp [hf, hp])
          | false => exact .inl (by simp [hf, hp])
      | succ i =>
          rw [List.modify_succ_cons]
          cases hp : p a with
          | true => exact .inl (by simp [hp])
          | false => simpa [hp] using ih i

theorem countP_modify (hf : ∀ a, p (f a) = p a) (items : List α) (i : Nat) :
    (items.modify i f).countP p = items.countP p := by
  induction items generalizing i with
  | nil => simp
  | cons a rest ih =>
      cases i with
      | zero => simp [List.countP_cons, hf]
      | succ i => simp [List.countP_cons, ih]

-- The state of a pull request set. Nothing else becomes known of it.
def Hosting.withState (state : PullState) (hosting : Option Hosting) : Option Hosting :=
  some { hosting.getD ⟨none, none, none⟩ with state := some state }

-- What is known of the pull request changed. The identity on record stays.
def Attempt.rehosted (attempt : Attempt) (change : Option Hosting → Option Hosting) : Attempt :=
  { attempt with hosting := change attempt.hosting }

theorem Attempt.matchesIdentity_rehosted (attempt : Attempt) (identity : Identity)
    (change : Option Hosting → Option Hosting) :
    (attempt.rehosted change).matchesIdentity identity = attempt.matchesIdentity identity := rfl

theorem Attempt.matchesIdentity_ofIdentity (identity : Identity) (hosting : Option Hosting) :
    (Attempt.ofIdentity identity hosting).matchesIdentity identity = true := by
  simp [matchesIdentity, ofIdentity]

theorem Attempt.matchesIdentity_iff (attempt : Attempt) (identity : Identity) :
    attempt.matchesIdentity identity = true ↔ attempt.data = identity.toJson := by
  simp [matchesIdentity]

namespace Feedstock

def attempted (feedstock : Feedstock) (attempt : Attempt) : Feedstock :=
  { feedstock with attempts := feedstock.attempts ++ [attempt] }

def rehosted (feedstock : Feedstock) (index : Nat) (change : Option Hosting → Option Hosting) :
    Feedstock :=
  { feedstock with
    attempts := feedstock.attempts.modify index fun attempt => attempt.rehosted change }

-- How many attempts on record have an identity.
def tally (feedstock : Feedstock) (identity : Identity) : Nat :=
  feedstock.attempts.countP fun attempt => attempt.matchesIdentity identity

theorem isSome_find?_iff (feedstock : Feedstock) (identity : Identity) :
    (feedstock.find? identity).isSome ↔ 0 < feedstock.tally identity := by
  simp only [find?, findAttempt?, tally, List.find?_isSome, List.countP_pos_iff]

theorem find?_eq_none_iff (feedstock : Feedstock) (identity : Identity) :
    feedstock.find? identity = none ↔ feedstock.tally identity = 0 := by
  rw [← Option.isNone_iff_eq_none, ← Option.not_isSome, Bool.not_eq_true', ← Bool.not_eq_true,
    isSome_find?_iff, Nat.pos_iff_ne_zero, Decidable.not_not]

theorem isSome_find?_iff_exists (feedstock : Feedstock) (identity : Identity) :
    (feedstock.find? identity).isSome = true ↔
      ∃ attempt ∈ feedstock.attempts, attempt.data = identity.toJson := by
  simp only [find?, findAttempt?, List.find?_isSome, Attempt.matchesIdentity_iff]

-- The first attempt on record that has an identity.
def FirstAttempt (feedstock : Feedstock) (identity : Identity) (attempt : Attempt) : Prop :=
  ∃ before after, feedstock.attempts = before ++ attempt :: after ∧
    attempt.data = identity.toJson ∧ ∀ earlier ∈ before, earlier.data ≠ identity.toJson

theorem find?_eq_some_iff_firstAttempt (feedstock : Feedstock) (identity : Identity)
    (attempt : Attempt) :
    feedstock.find? identity = some attempt ↔ feedstock.FirstAttempt identity attempt := by
  simp only [find?, findAttempt?, List.find?_eq_some_iff_append, Attempt.matchesIdentity_iff,
    Bool.not_eq_true', ← Bool.not_eq_true, FirstAttempt]
  constructor
  · rintro ⟨hdata, before, after, happend, hbefore⟩
    exact ⟨before, after, happend, hdata, hbefore⟩
  · rintro ⟨before, after, happend, hdata, hbefore⟩
    exact ⟨hdata, before, after, happend, hbefore⟩

theorem of_find?_eq_some {feedstock : Feedstock} {identity : Identity} {attempt : Attempt}
    (h : feedstock.find? identity = some attempt) :
    attempt ∈ feedstock.attempts ∧ attempt.matchesIdentity identity = true :=
  ⟨List.mem_of_find?_eq_some h,
    @List.find?_some _ (fun other : Attempt => other.matchesIdentity identity) _ _ h⟩

theorem find?_attempted (feedstock : Feedstock) (attempt : Attempt) (identity : Identity) :
    (feedstock.attempted attempt).find? identity =
      (feedstock.find? identity).or (findAttempt? [attempt] identity) :=
  List.find?_append

theorem find?_attempted_ofIdentity_ne_none (feedstock : Feedstock) (identity : Identity)
    (hosting : Option Hosting) :
    (feedstock.attempted (.ofIdentity identity hosting)).find? identity ≠ none := by
  rw [find?_attempted, ne_eq, Option.or_eq_none_iff]
  simp [findAttempt?, Attempt.matchesIdentity_ofIdentity]

theorem tally_attempted (feedstock : Feedstock) (attempt : Attempt) (identity : Identity) :
    (feedstock.attempted attempt).tally identity =
      feedstock.tally identity + if attempt.matchesIdentity identity then 1 else 0 := by
  simp [tally, attempted]

theorem find?_rehosted (feedstock : Feedstock) (index : Nat)
    (change : Option Hosting → Option Hosting) (identity : Identity) :
    (feedstock.rehosted index change).find? identity = feedstock.find? identity ∨
      (feedstock.rehosted index change).find? identity =
        (feedstock.find? identity).map fun attempt => attempt.rehosted change :=
  find?_modify _ _ (fun attempt => attempt.matchesIdentity_rehosted identity change) _ index

theorem tally_rehosted (feedstock : Feedstock) (index : Nat)
    (change : Option Hosting → Option Hosting) (identity : Identity) :
    (feedstock.rehosted index change).tally identity = feedstock.tally identity :=
  countP_modify _ _ (fun attempt => attempt.matchesIdentity_rehosted identity change) _ index

end Feedstock

end Rollout
