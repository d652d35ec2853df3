import Rollout.Migration

namespace Rollout

namespace Piggyback

-- Steps that all succeed, each of them on the checkout that the one before it left.
inductive Leads (feedstock : Feedstock) : List Piggyback → Checkout → Checkout → Prop where
  | nil (checkout : Checkout) : Leads feedstock [] checkout checkout
  | cons {step : Piggyback} {rest : List Piggyback} {checkout next last : Checkout}
      (hwork : step.work feedstock checkout = ⟨next, .ok ()⟩)
      (hrest : Leads feedstock rest next last) : Leads feedstock (step :: rest) checkout last

-- Steps one of which fails after all those before it have succeeded. It is the last one executed.
inductive Breaks (feedstock : Feedstock) : List Piggyback → Checkout → List Piggyback → Checkout →
    Fault → Prop where
  | intro {done rest : List Piggyback} {failing : Piggyback} {checkout reached left : Checkout}
      {fault : Fault} (hdone : Leads feedstock done checkout reached)
      (hwork : failing.work feedstock reached = ⟨left, .error fault⟩) :
      Breaks feedstock (done ++ failing :: rest) checkout (done ++ [failing]) left fault

variable {feedstock : Feedstock} {step : Piggyback} {steps executed : List Piggyback}
  {checkout next last left : Checkout} {fault : Fault}

theorem Breaks.cons (hwork : step.work feedstock checkout = ⟨next, .ok ()⟩)
    (hrest : Breaks feedstock steps next executed left fault) :
    Breaks feedstock (step :: steps) checkout (step :: executed) left fault := by
  obtain ⟨hdone, hfails⟩ := hrest
  exact .intro (.cons hwork hdone) hfails

theorem Breaks.cases_cons (h : Breaks feedstock (step :: steps) checkout executed left fault) :
    executed = [step] ∧ step.work feedstock checkout = ⟨left, .error fault⟩ ∨
      ∃ next later, executed = step :: later ∧ step.work feedstock checkout = ⟨next, .ok ()⟩ ∧
        Breaks feedstock steps next later left fault := by
  generalize hall : step :: steps = all at h
  obtain ⟨hdone, hfails⟩ := h
  cases hdone with
  | nil =>
      obtain ⟨rfl, -⟩ := List.cons.inj hall
      exact .inl ⟨rfl, hfails⟩
  | cons hwork hrest =>
      obtain ⟨rfl, rfl⟩ := List.cons.inj hall
      exact .inr ⟨_, _, rfl, hwork, .intro hrest hfails⟩

theorem leads_or_breaks (feedstock : Feedstock) (steps : List Piggyback) (checkout : Checkout) :
    (∃ last, Leads feedstock steps checkout last) ∨
      ∃ executed left fault, Breaks feedstock steps checkout executed left fault := by
  induction steps generalizing checkout with
  | nil => exact .inl ⟨checkout, .nil checkout⟩
  | cons step rest ih =>
      cases hwork : step.work feedstock checkout with
      | mk next result =>
          cases result with
          | error fault => exact .inr ⟨[step], next, fault, .intro (.nil checkout) hwork⟩
          | ok =>
              obtain ⟨last, hrest⟩ | ⟨executed, left, fault, hrest⟩ := ih next
              · exact .inl ⟨last, .cons hwork hrest⟩
              · exact .inr ⟨step :: executed, left, fault, hrest.cons hwork⟩

-- The steps that do not skip the feedstock, in the order in which they are registered.
def due (feedstock : Feedstock) (steps : List Piggyback) : List Piggyback :=
  steps.filter fun step => !step.skips feedstock

theorem runAll_of_skips (h : step.skips feedstock = true) :
    runAll feedstock (step :: steps) checkout = runAll feedstock steps checkout := by
  rw [runAll, if_pos h]

theorem runAll_of_ok (h : step.skips feedstock = false)
    (hwork : step.work feedstock checkout = ⟨next, .ok ()⟩) :
    runAll feedstock (step :: steps) checkout =
      { runAll feedstock steps next with
        ran := step.name :: (runAll feedstock steps next).ran } := by
  rw [runAll, if_neg (by simp [h]), hwork]

theorem runAll_of_error (h : step.skips feedstock = false)
    (hwork : step.work feedstock checkout = ⟨left, .error fault⟩) :
    runAll feedstock (step :: steps) checkout = ⟨[step.name], left, .error fault⟩ := by
  rw [runAll, if_neg (by simp [h]), hwork]

theorem due_of_skips (h : step.skips feedstock = true) :
    due feedstock (step :: steps) = due feedstock steps :=
  List.filter_cons_of_neg (by simp [h])

theorem due_of_not_skips (h : step.skips feedstock = false) :
    due feedstock (step :: steps) = step :: due feedstock steps :=
  List.filter_cons_of_pos (by simp [h])

theorem runAll_of_leads (h : Leads feedstock (due feedstock steps) checkout last) :
    runAll feedstock steps checkout = ⟨(due feedstock steps).map name, last, .ok ()⟩ := by
  induction steps generalizing checkout with
  | nil =>
      cases h
      rfl
  | cons step rest ih =>
      cases hskips : step.skips feedstock with
      | true =>
          rw [due_of_skips hskips] at h ⊢
          rw [runAll_of_skips hskips, ih h]
      | false =>
          rw [due_of_not_skips hskips] at h ⊢
          obtain _ | ⟨hwork, hrest⟩ := h
          rw [runAll_of_ok hskips hwork, ih hrest, List.map_cons]

theorem runAll_of_breaks (h : Breaks feedstock (due feedstock steps) checkout executed left fault) :
    runAll feedstock steps checkout = ⟨executed.map name, left, .error fault⟩ := by
  induction steps generalizing checkout executed with
  | nil =>
      generalize hnil : due feedstock [] = none at h
      obtain ⟨-, -⟩ := h
      cases (List.append_eq_nil_iff.mp hnil.symm).2
  | cons step rest ih =>
      cases hskips : step.skips feedstock with
      | true =>
          rw [due_of_skips hskips] at h
          rw [runAll_of_skips hskips, ih h]
      | false =>
          rw [due_of_not_skips hskips] at h
          obtain ⟨rfl, hwork⟩ | ⟨next, later, rfl, hwork, hrest⟩ := h.cases_cons
          · rw [runAll_of_error hskips hwork, List.map_singleton]
          · rw [runAll_of_ok hskips hwork, ih hrest, List.map_cons]

end Piggyback

-- What is executed in a run: a step that rides along, or the job's own change.
inductive Action where
  | step (piggyback : Piggyback)
  | change

-- The names by which a transcript lists the steps.
def Action.stepName? : Action → Option String
  | .step piggyback => some piggyback.name
  | .change => none

namespace Job

-- The steps that a run takes a feedstock through before the job's own change.
def stepsBefore (job : Job) (feedstock : Feedstock) : List Piggyback :=
  Piggyback.due feedstock (job.settings.piggybacks.filter (!·.after))

-- The steps that a run takes a feedstock through after the job's own change.
def stepsAfter (job : Job) (feedstock : Feedstock) : List Piggyback :=
  Piggyback.due feedstock (job.settings.piggybacks.filter (·.after))

-- The ways in which a run can go: what is executed, the checkout that is left, and the result.
inductive Runs (job : Job) (feedstock : Feedstock) (checkout : Checkout) :
    List Action → Checkout → Except Fault Outcome → Prop where
  | stepFails {executed : List Piggyback} {left : Checkout} {fault : Fault}
      (hbefore : Piggyback.Breaks feedstock (job.stepsBefore feedstock) checkout executed left fault) :
      Runs job feedstock checkout (executed.map .step) left (.error fault)
  | changeFails {reached left : Checkout} {fault : Fault}
      (hbefore : Piggyback.Leads feedstock (job.stepsBefore feedstock) checkout reached)
      (hchange : job.migrate feedstock reached = ⟨left, .error fault⟩) :
      Runs job feedstock checkout ((job.stepsBefore feedstock).map .step ++ [.change]) left
        (.error fault)
  | nothingToChange {reached left : Checkout}
      (hbefore : Piggyback.Leads feedstock (job.stepsBefore feedstock) checkout reached)
      (hchange : job.migrate feedstock reached = ⟨left, .ok .unchanged⟩) :
      Runs job feedstock checkout ((job.stepsBefore feedstock).map .step ++ [.change]) left
        (.ok .unchanged)
  | laterStepFails {reached changed left : Checkout} {identity : Identity}
      {executed : List Piggyback} {fault : Fault}
      (hbefore : Piggyback.Leads feedstock (job.stepsBefore feedstock) checkout reached)
      (hchange : job.migrate feedstock reached = ⟨changed, .ok (.migrated identity)⟩)
      (hafter : Piggyback.Breaks feedstock (job.stepsAfter feedstock) changed executed left fault) :
      Runs job feedstock checkout
        ((job.stepsBefore feedstock).map .step ++ .change :: executed.map .step) left (.error fault)
  | completed {reached changed left : Checkout} {identity : Identity}
      (hbefore : Piggyback.Leads feedstock (job.stepsBefore feedstock) checkout reached)
      (hchange : job.migrate feedstock reached = ⟨changed, .ok (.migrated identity)⟩)
      (hafter : Piggyback.Leads feedstock (job.stepsAfter feedstock) changed left) :
      Runs job feedstock checkout
        ((job.stepsBefore feedstock).map .step ++ .change :: (job.stepsAfter feedstock).map .step)
        left (.ok (.migrated identity))

theorem filterMap_stepName?_map_step (steps : List Piggyback) :
    (steps.map Action.step).filterMap Action.stepName? = steps.map Piggyback.name := by
  rw [List.filterMap_map]
  exact congrFun List.filterMap_eq_map steps

theorem filterMap_stepName?_change (before : List Piggyback) (after : List Action) :
    (before.map Action.step ++ .change :: after).filterMap Action.stepName? =
      before.map Piggyback.name ++ after.filterMap Action.stepName? := by
  rw [List.filterMap_append, filterMap_stepName?_map_step, List.filterMap_cons_none rfl]

variable {job : Job} {feedstock : Feedstock} {checkout left : Checkout} {executed : List Action}
  {result : Except Fault Outcome}

theorem run_of_runs (h : job.Runs feedstock checkout executed left result) :
    job.run feedstock checkout = ⟨executed.filterMap Action.stepName?, left, result⟩ := by
  cases h with
  | stepFails hbefore =>
      rw [filterMap_stepName?_map_step, run, Piggyback.runAll_of_breaks hbefore]
  | changeFails hbefore hchange =>
      rw [filterMap_stepName?_change, run, Piggyback.runAll_of_leads hbefore]
      simp only [hchange, List.filterMap_nil, List.append_nil]
      rfl
  | nothingToChange hbefore hchange =>
      rw [filterMap_stepName?_change, run, Piggyback.runAll_of_leads hbefore]
      simp only [hchange, List.filterMap_nil, List.append_nil]
      rfl
  | laterStepFails hbefore hchange hafter =>
      rw [filterMap_stepName?_change, run, Piggyback.runAll_of_leads hbefore,
        filterMap_stepName?_map_step]
      simp only [hchange, Piggyback.runAll_of_breaks hafter]
      rfl
  | completed hbefore hchange hafter =>
      rw [filterMap_stepName?_change, run, Piggyback.runAll_of_leads hbefore,
        filterMap_stepName?_map_step]
      simp only [hchange, Piggyback.runAll_of_leads hafter]
      rfl

theorem exists_runs (job : Job) (feedstock : Feedstock) (checkout : Checkout) :
    ∃ executed left result, job.Runs feedstock checkout executed left result := by
  obtain ⟨reached, hbefore⟩ | ⟨executed, left, fault, hbefore⟩ :=
    Piggyback.leads_or_breaks feedstock (job.stepsBefore feedstock) checkout
  case inr => exact ⟨_, left, _, .stepFails hbefore⟩
  cases hchange : job.migrate feedstock reached with
  | mk changed outcome =>
      rcases outcome with fault | identity | -
      · exact ⟨_, changed, _, .changeFails hbefore hchange⟩
      · obtain ⟨left, hafter⟩ | ⟨executed, left, fault, hafter⟩ :=
          Piggyback.leads_or_breaks feedstock (job.stepsAfter feedstock) changed
        · exact ⟨_, left, _, .completed hbefore hchange hafter⟩
        · exact ⟨_, left, _, .laterStepFails hbefore hchange hafter⟩
      · exact ⟨_, changed, _, .nothingToChange hbefore hchange⟩

-- A run takes the steps before the change in their order, then the change, and the steps after it
-- only if something changed. The first failure ends it, and its result is that of the change if
-- nothing fails.
theorem run_in_order (job : Job) (feedstock : Feedstock) (checkout : Checkout)
    (transcript : Transcript Outcome) :
    job.run feedstock checkout = transcript ↔
      ∃ executed, job.Runs feedstock checkout executed transcript.checkout transcript.result ∧
        transcript.ran = executed.filterMap Action.stepName? := by
  constructor
  · rintro rfl
    obtain ⟨executed, left, result, hruns⟩ := job.exists_runs feedstock checkout
    rw [run_of_runs hruns]
    exact ⟨executed, hruns, rfl⟩
  · rintro ⟨executed, hruns, hran⟩
    rw [run_of_runs hruns, ← hran]

-- The second step fails, so that neither the change nor the step after it is executed.
example :
    let steps : List Piggyback :=
      [.scripted "late" true [] none none, .scripted "skipped" false ["numpy"] none none,
        .scripted "early" false [] (some "about:\n") none,
        .scripted "broken" false [] none (some "disk full")]
    let job : Job := ⟨{ Settings.ofVersion 0 with piggybacks := steps }, .bookkeeping⟩
    let transcript := job.run (.named "numpy") ⟨"recipe", .text "build:\n", .absent .missing, ∅⟩
    transcript.ran = ["early", "broken"] ∧ transcript.checkout.recipe = .text "build:\nabout:\n" := by
  decide +kernel

end Job

end Rollout
