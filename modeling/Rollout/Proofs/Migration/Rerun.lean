import Rollout.Proofs.Migration
import Rollout.Proofs.Recipe.Counter
import Rollout.Proofs.Swap

namespace Rollout.Job

variable {job : Job} {pair : Swap} {checkout : Checkout} {recipe : String}

-- The checkout after a job has worked on it once for every attempt, each with what is known of
-- the feedstock by then.
def rerun (job : Job) (attempts : List Feedstock) (checkout : Checkout) : Checkout :=
  attempts.foldl (fun checkout feedstock => (job.migrate feedstock checkout).checkout) checkout

theorem rerun_eq_self
    (h : ∀ feedstock, job.migrate feedstock checkout = ⟨checkout, .ok .unchanged⟩)
    (attempts : List Feedstock) : job.rerun attempts checkout = checkout := by
  induction attempts with
  | nil => rfl
  | cons feedstock rest ih =>
      calc
        job.rerun (feedstock :: rest) checkout =
            job.rerun rest (job.migrate feedstock checkout).checkout := rfl
        _ = job.rerun rest checkout := by rw [h feedstock]
        _ = checkout := ih

theorem migrate_swap_of_text (hkind : job.kind = .swap pair) (h : checkout.recipe = .text recipe)
    (feedstock : Feedstock) :
    job.migrate feedstock checkout =
      match renameDependency? pair.old pair.new recipe with
      | none => ⟨checkout, .ok .unchanged⟩
      | some renamed =>
        ⟨checkout.writeRecipe (updateCounter renamed job.counterChange),
          .ok (.migrated (job.identity feedstock))⟩ := by
  rw [migrate, hkind]
  exact swapDependency_of_text h pair

theorem migrate_swap_of_not_declares (hkind : job.kind = .swap pair)
    (h : checkout.recipe = .text recipe)
    (hnone : ∀ line ∈ lines recipe.toList, ¬ Declares pair.old.toList line)
    (feedstock : Feedstock) : job.migrate feedstock checkout = ⟨checkout, .ok .unchanged⟩ := by
  rw [migrate_swap_of_text hkind h, (renameDependency?_eq_none_iff _ _ _).mpr hnone]

-- A replacement does its work on a recipe once. It finds no line for the old package in what it
-- has written, the counter included, so all later attempts leave the checkout alone.
theorem swap_runs_once (job : Job) (pair : Swap) (hkind : job.kind = .swap pair)
    (hold : IsWord pair.old.toList) (hcolon : ':' ∉ pair.old.toList)
    (hbrace : '\x7b' ∉ pair.old.toList) (hnew : IsWord pair.new.toList)
    (checkout : Checkout) (recipe : String) (htext : checkout.recipe = .text recipe)
    (feedstock : Feedstock) :
    (((∀ line ∈ lines recipe.toList, ¬ Declares pair.old.toList line) ∧
        job.migrate feedstock checkout = ⟨checkout, .ok .unchanged⟩) ∨
      ∃ renamed, renameDependency? pair.old pair.new recipe = some renamed ∧
        job.migrate feedstock checkout =
          ⟨checkout.writeRecipe (updateCounter renamed (.bump job.settings.increment)),
            .ok (.migrated (job.identity feedstock))⟩) ∧
    (∀ again, job.migrate again (job.migrate feedstock checkout).checkout =
      ⟨(job.migrate feedstock checkout).checkout, .ok .unchanged⟩) ∧
    ∀ attempts, job.rerun attempts (job.migrate feedstock checkout).checkout =
      (job.migrate feedstock checkout).checkout := by
  cases hrenamed : renameDependency? pair.old pair.new recipe with
  | none =>
      have hnone := (renameDependency?_eq_none_iff _ _ _).mp hrenamed
      have hagain := migrate_swap_of_not_declares hkind htext hnone
      rw [hagain feedstock]
      exact ⟨.inl ⟨hnone, rfl⟩, hagain, rerun_eq_self hagain⟩
  | some renamed =>
      let worked := checkout.writeRecipe (updateCounter renamed job.counterChange)
      have hfirst : job.migrate feedstock checkout =
          ⟨worked, .ok (.migrated (job.identity feedstock))⟩ := by
        rw [migrate_swap_of_text hkind htext, hrenamed]
      have hnone := not_declares_updateCounter hold hcolon hbrace renamed job.counterChange
        (not_declares_of_renameDependency? hold hnew pair.old_ne_new hrenamed)
      have hagain : ∀ again, job.migrate again worked = ⟨worked, .ok .unchanged⟩ :=
        migrate_swap_of_not_declares hkind rfl hnone
      rw [hfirst]
      exact ⟨.inr ⟨renamed, rfl, rfl⟩, hagain, rerun_eq_self hagain⟩

-- A recipe with one line to rename.
def qtPair : Swap := ⟨"pyqt", "pyside", "", by decide, by decide, by decide⟩

def qtRecipe : String := "build:\n  number: 0\nrequirements:\n  run:\n    - pyqt >=5\n"

theorem swap_runs_once_qt :
    (qtPair.job (.ofVersion 0)).kind = .swap qtPair ∧
      ∀ attempts, (qtPair.job (.ofVersion 0)).rerun (.named "viewer" :: attempts)
        ⟨"recipe", .text qtRecipe, .absent .missing, ∅⟩ =
          ⟨"recipe", .text
            "build:\n  number: 1\nrequirements:\n  run:\n    - pyside >=5\n",
            .absent .missing, ∅⟩ := by
  refine ⟨rfl, fun attempts => ?_⟩
  have hruns := (swap_runs_once (qtPair.job (.ofVersion 0)) qtPair rfl (by decide) (by decide)
    (by decide) (by decide) ⟨"recipe", .text qtRecipe, .absent .missing, ∅⟩ qtRecipe rfl
    (.named "viewer")).2.2 attempts
  refine hruns.trans ?_
  decide +kernel

-- A name with a colon can be put together by the counter: the recipe declares `number:` once, and
-- once more after the first attempt.
example :
    let pair : Swap := ⟨"number:", "n", "", by decide, by decide, by decide⟩
    let checkout : Checkout := ⟨"recipe", .text "- number:\n- number:5\n", .absent .missing, ∅⟩
    (pair.job (.ofVersion 0)).rerun [.named "a"] checkout ≠
      (pair.job (.ofVersion 0)).rerun [.named "a", .named "a"] checkout := by
  decide +kernel

end Rollout.Job
