import Rollout.Proofs.Migration.Rerun
import Rollout.Proofs.Recipe.Apart

namespace Rollout

namespace Swap

def IsPlain (swap : Swap) : Prop := IsPlainName swap.old.toList ∧ IsPlainName swap.new.toList

instance (swap : Swap) : Decidable swap.IsPlain := inferInstanceAs (Decidable (_ ∧ _))

-- Neither replacement touches the package that the other replaces.
structure Apart (swap other : Swap) : Prop where
  old_ne_old : swap.old ≠ other.old
  new_ne_old : swap.new ≠ other.old
  old_ne_new : swap.old ≠ other.new

theorem toList_ne_toList {a b : String} (h : a ≠ b) : a.toList ≠ b.toList :=
  mt String.toList_inj.mp h

theorem Apart.symm {swap other : Swap} (h : swap.Apart other) : other.Apart swap :=
  ⟨h.old_ne_old.symm, h.old_ne_new.symm, h.new_ne_old.symm⟩

-- Some line of the recipe declares the package that is replaced.
def Concerns (swap : Swap) (recipe : String) : Prop :=
  ∃ line ∈ lines recipe.toList, Declares swap.old.toList line

instance (swap : Swap) (recipe : String) : Decidable (swap.Concerns recipe) :=
  inferInstanceAs (Decidable (∃ line ∈ lines recipe.toList, Declares swap.old.toList line))

-- A recipe that a replacement concerns, after it.
def worked (swap : Swap) (increment : UInt64) (recipe : String) : String :=
  String.ofList (renumberFirst (.bump increment)
    (renameLines swap.old.toList swap.new.toList recipe.toList))

def applied (swap : Swap) (increment : UInt64) (recipe : String) : String :=
  if swap.Concerns recipe then swap.worked increment recipe else recipe

variable {swap other : Swap} {increment second : UInt64} {recipe : String}

theorem exists_renamed (h : swap.Concerns recipe) :
    ∃ renamed, renameDependency? swap.old swap.new recipe = some renamed ∧
      updateCounter renamed (.bump increment) = swap.worked increment recipe := by
  cases hrenamed : renameDependency? swap.old swap.new recipe with
  | none =>
      obtain ⟨line, hm, hline⟩ := h
      exact absurd hline ((renameDependency?_eq_none_iff _ _ _).mp hrenamed line hm)
  | some renamed =>
      refine ⟨renamed, rfl, String.toList_inj.mp ?_⟩
      rw [worked, String.toList_ofList, toList_updateCounter, renameDependency?_eq_some hrenamed]
      rfl

theorem toList_worked (swap : Swap) (increment : UInt64) (recipe : String) :
    (swap.worked increment recipe).toList = renumberFirst (.bump increment)
      (renameLines swap.old.toList swap.new.toList recipe.toList) :=
  String.toList_ofList

theorem worked_comm (hswap : swap.IsPlain) (hother : other.IsPlain) (hapart : swap.Apart other)
    (increment second : UInt64) (recipe : String) :
    other.worked second (swap.worked increment recipe) =
      swap.worked increment (other.worked second recipe) := by
  apply String.toList_inj.mp
  simp only [toList_worked]
  rw [← renumberFirst_renameLines hother.1 hother.2, ← renumberFirst_renameLines hswap.1 hswap.2,
    renumberFirst_bump_comm, renameLines_comm hother.1.1 hother.2.1 hswap.1.1 hswap.2.1
      (toList_ne_toList hapart.old_ne_old.symm) (toList_ne_toList hapart.old_ne_new.symm)
      (toList_ne_toList hapart.new_ne_old)]

theorem concerns_worked_iff (hswap : swap.IsPlain) (hother : other.IsPlain)
    (hapart : swap.Apart other) : swap.Concerns (other.worked second recipe) ↔ swap.Concerns recipe := by
  have hcounter := exists_declares_updateCounter_iff hswap.1.1 hswap.1.2.1 hswap.1.2.2
    (String.ofList (renameLines other.old.toList other.new.toList recipe.toList)) (.bump second)
  rw [toList_updateCounter, String.toList_ofList, exists_declares_renameLines_iff hswap.1.1
    hother.1.1 hother.2.1 (toList_ne_toList hapart.old_ne_old)
    (toList_ne_toList hapart.old_ne_new)] at hcounter
  rwa [Concerns, toList_worked]

theorem concerns_applied_iff (hswap : swap.IsPlain) (hother : other.IsPlain)
    (hapart : swap.Apart other) :
    swap.Concerns (other.applied second recipe) ↔ swap.Concerns recipe := by
  rw [applied]
  split
  · exact concerns_worked_iff hswap hother hapart
  · exact Iff.rfl

theorem applied_applied (hswap : swap.IsPlain) (hother : other.IsPlain)
    (hapart : swap.Apart other) (increment second : UInt64) (recipe : String) :
    swap.applied increment (other.applied second recipe) =
      if swap.Concerns recipe then swap.worked increment (other.applied second recipe)
      else other.applied second recipe := by
  rw [applied]
  simp only [concerns_applied_iff hswap hother hapart]

theorem applied_comm (hswap : swap.IsPlain) (hother : other.IsPlain) (hapart : swap.Apart other)
    (increment second : UInt64) (recipe : String) :
    other.applied second (swap.applied increment recipe) =
      swap.applied increment (other.applied second recipe) := by
  rw [applied_applied hother hswap hapart.symm, applied_applied hswap hother hapart, applied, applied]
  by_cases hconcerns : swap.Concerns recipe <;> by_cases hconcernsOther : other.Concerns recipe
  · simp only [if_pos hconcerns, if_pos hconcernsOther, worked_comm hswap hother hapart]
  · simp only [if_pos hconcerns, if_neg hconcernsOther]
  · simp only [if_neg hconcerns, if_pos hconcernsOther]
  · simp only [if_neg hconcerns, if_neg hconcernsOther]

end Swap

namespace Job

variable {job : Job} {pair : Swap} {checkout : Checkout} {recipe : String}

theorem migrate_swap (hkind : job.kind = .swap pair) (htext : checkout.recipe = .text recipe)
    (feedstock : Feedstock) :
    job.migrate feedstock checkout =
      ⟨checkout.writeRecipe (pair.applied job.settings.increment recipe),
        .ok (if pair.Concerns recipe then .migrated (job.identity feedstock) else .unchanged)⟩ := by
  rw [Swap.applied]
  split
  · rename_i hconcerns
    obtain ⟨renamed, hrenamed, hworked⟩ := Swap.exists_renamed hconcerns
    rw [migrate_swap_of_text hkind htext, hrenamed, ← hworked]
    rfl
  · rename_i hnone
    rw [(checkout.writeRecipe_eq_self_iff htext recipe).mpr rfl]
    exact migrate_swap_of_not_declares hkind htext
      (fun line hm hline => hnone ⟨line, hm, hline⟩) feedstock

-- Two replacements that keep off each other's packages can work on a recipe in either order: they
-- leave the same checkout, and each of them ends as it would without the other.
theorem swaps_exchange (job other : Job) (pair second : Swap) (hjob : job.kind = .swap pair)
    (hother : other.kind = .swap second) (hpair : pair.IsPlain) (hsecond : second.IsPlain)
    (hapart : pair.Apart second) (checkout : Checkout) (recipe : String)
    (htext : checkout.recipe = .text recipe) (feedstock : Feedstock) :
    (other.migrate feedstock (job.migrate feedstock checkout).checkout).checkout =
      (job.migrate feedstock (other.migrate feedstock checkout).checkout).checkout ∧
    (∃ outcome, (job.migrate feedstock checkout).result = .ok outcome ∧
      (job.migrate feedstock (other.migrate feedstock checkout).checkout).result = .ok outcome) ∧
    ∃ outcome, (other.migrate feedstock checkout).result = .ok outcome ∧
      (other.migrate feedstock (job.migrate feedstock checkout).checkout).result = .ok outcome := by
  have hwritten : ∀ content, (checkout.writeRecipe content).recipe = .text content := fun _ => rfl
  simp only [migrate_swap hjob htext, migrate_swap hother htext, migrate_swap hjob (hwritten _),
    migrate_swap hother (hwritten _)]
  refine ⟨?_, ⟨_, rfl, ?_⟩, ⟨_, rfl, ?_⟩⟩
  · exact congrArg checkout.writeRecipe (Swap.applied_comm hpair hsecond hapart _ _ recipe)
  · simp only [Swap.concerns_applied_iff hpair hsecond hapart]
  · simp only [Swap.concerns_applied_iff hsecond hpair hapart.symm]

-- A second replacement for a recipe with one line for each of two.
def sipPair : Swap := ⟨"sip", "pyqt-sip", "", by decide, by decide, by decide⟩

def sipCheckout : Checkout :=
  ⟨"recipe", .text "build:\r\n  number:\r\n    0\r\nrequirements:\r\n  run:\r\n    - sip\r\n    - pyqt >=5",
    .absent .missing, ∅⟩

theorem swaps_exchange_qt :
    qtPair.IsPlain ∧ sipPair.IsPlain ∧ qtPair.Apart sipPair ∧
      ((sipPair.job (.ofVersion 0)).migrate (.named "viewer")
        ((qtPair.job (.ofVersion 0)).migrate (.named "viewer") sipCheckout).checkout).checkout =
          sipCheckout.writeRecipe
            "build:\n  number: 2\nrequirements:\n  run:\n    - pyqt-sip\n    - pyside >=5\n" := by
  have hqt : qtPair.IsPlain := by decide
  have hsip : sipPair.IsPlain := by decide
  have hapart : qtPair.Apart sipPair := ⟨by decide, by decide, by decide⟩
  have hexchange := (swaps_exchange (qtPair.job (.ofVersion 0)) (sipPair.job (.ofVersion 0)) qtPair
    sipPair rfl rfl hqt hsip hapart sipCheckout _ rfl (.named "viewer")).1
  refine ⟨hqt, hsip, hapart, hexchange.trans ?_⟩
  decide +kernel

end Job

end Rollout
