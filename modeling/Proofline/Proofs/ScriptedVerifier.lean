import Proofline.Proofs.VerificationRun

/-!
# Verifiers that follow scripts

A step restores the cancellation of the step around it, so a verifier that runs
steps takes back no cancellation. A script without steps does nothing but cancel
the step that called it, and always comes to the same outcome.
-/

namespace Proofline

/-- Whether an action never fails with a message, and leaves the cancellation of
the running step as it was when it returns. -/
structure SessionM.Nests {α : Type} (action : SessionM α) : Prop where
  canceled : ∀ {session value after}, action.run session = (.ok value, after) →
    after.canceled = session.canceled
  neverFails : ∀ {session message after},
    action.run session ≠ (.error (.failed message), after)

/-- A step restores the context of the step around it. -/
theorem StepOf.nests_perform {σ : Type} (inner : σ → SessionM Answer) (step : StepOf σ) :
    (step.perform inner).Nests := by
  constructor
  · intro session answer after ran
    simp only [StepOf.perform, SessionM.run_bind, SessionM.run_get, SessionM.run_set] at ran
    split at ran
    · cases ran
      rfl
    · cases ran
  · intro session message after ran
    simp only [StepOf.perform, SessionM.run_bind, SessionM.run_get, SessionM.run_set,
      SessionM.run_attempt] at ran
    split at ran
    · cases ran
    · rename_i attempted
      split at attempted
      all_goals cases attempted
      all_goals cases ran

theorem Step.nests_perform (n : Nat) (step : Step n) : (Step.perform n step).Nests := by
  cases n with
  | zero => exact StepOf.nests_perform _ step
  | succ n => exact StepOf.nests_perform _ step

namespace Script

variable {σ α : Type} {perform : σ → SessionM Answer}

/-- How a script ends once its steps have been run. -/
def verdict (script : Script σ α) : Except String α :=
  match script.failure with
  | none => .ok script.reply
  | some message => .error message

theorem nests_runSteps (nests : ∀ step, (perform step).Nests) (steps : List σ) :
    (runSteps perform steps).Nests := by
  induction steps with
  | nil =>
      constructor
      · intro session value after ran
        cases ran
        rfl
      · intro session message after ran
        cases ran
  | cons step rest ih =>
      constructor
      · intro session value after ran
        simp only [runSteps, SessionM.run_bind, SessionM.run_record] at ran
        split at ran
        · rename_i performed
          have restored := (nests step).canceled performed
          exact (ih.canceled ran).trans restored
        · cases ran
      · intro session message after ran
        simp only [runSteps, SessionM.run_bind, SessionM.run_record] at ran
        split at ran
        · exact ih.neverFails ran
        · rename_i performed
          cases ran
          exact (nests step).neverFails performed

theorem run_forM_noJournal (reports : List Report) (session : Session) :
    (reports.forM Plan.noJournal).run session = (.ok (), session) := by
  induction reports with
  | nil => rfl
  | cons report rest ih => exact ih

/-- Once its steps have been run, a script cancels the step that called it if it
is to, and ends with its verdict. -/
theorem run_attempt_follow (script : Script σ α) {session middle : Session}
    (ran : (runSteps perform script.steps).run session = (.ok (), middle)) :
    (SessionM.attempt (script.follow perform Plan.noJournal)).run session =
      (.ok script.verdict,
        { middle with canceled := middle.canceled || script.cancels }) := by
  have ending (last : Session) :
      (script.reports.forM Plan.noJournal >>= fun _ => script.conclude).run last =
        (script.verdict.mapError .failed, last) := by
    rw [SessionM.run_bind, run_forM_noJournal]
    simp only
    rw [verdict, conclude]
    cases script.failure with
    | none => rfl
    | some message => rfl
  have comesBack : (script.follow perform Plan.noJournal).run session =
      (script.verdict.mapError .failed,
        { middle with canceled := middle.canceled || script.cancels }) := by
    rw [follow, SessionM.run_bind, ran]
    simp only
    by_cases cancels : script.cancels = true
    · rw [if_pos cancels, SessionM.run_bind, SessionM.run_cancel]
      refine (ending _).trans ?_
      rw [cancels, Bool.or_true]
    · rw [if_neg cancels, Bool.eq_false_iff.mpr cancels, Bool.or_false]
      exact ending middle
  rw [SessionM.run_attempt, comesBack]
  cases script.verdict with
  | ok value => rfl
  | error message => rfl

/-- A call that comes back has run all steps of its script. -/
theorem runSteps_of_attempt_follow (nests : ∀ step, (perform step).Nests) (script : Script σ α)
    {session after : Session} {result : Except String α}
    (ran : (SessionM.attempt (script.follow perform Plan.noJournal)).run session =
      (.ok result, after)) :
    ∃ middle, (runSteps perform script.steps).run session = (.ok (), middle) := by
  rcases steps : (runSteps perform script.steps).run session with ⟨stop | _, middle⟩
  · rw [SessionM.run_attempt, follow, SessionM.run_bind, steps] at ran
    cases stop with
    | failed message => exact absurd steps (nests_runSteps nests script.steps).neverFails
    | stuck => cases ran
    | misused => cases ran
  · exact ⟨middle, rfl⟩

end Script

namespace Plan

open Services (VerifiesAlone NeverCancels)

variable {σ : Type} {perform : σ → SessionM Answer}

/-- Whatever steps a verifier runs, it leaves a manager alone that is verifying its
latest version, and takes back no cancellation. -/
theorem verifies_services (number n : Nat) (plan : Plan (Step n)) :
    (plan.services (Step.perform n)).Verifies number fun _ _ => True where
  steady unit :=
    ((SessionM.respect_services (isDiscipline_behaves none) (Step.behaves_perform n)
      plan).verify unit).mono fun _ _ _ behaves => behaves.steady number (by simp)
  staysCanceled {unit session result after} ran canceled := by
    have nests := Step.nests_perform n
    rcases Script.runSteps_of_attempt_follow nests (plan.verify unit) ran with ⟨middle, steps⟩
    have restored := (Script.nests_runSteps nests _).canceled steps
    change (SessionM.attempt ((plan.verify unit).follow (Step.perform n) noJournal)).run session =
      (.ok result, after) at ran
    rw [Script.run_attempt_follow _ steps] at ran
    cases ran
    simp [restored, canceled]
  outcome _ := trivial

/-- The plan under which the parser yields `module` and every unit is verified. -/
def succeeding (module : Option Declaration) : Plan σ where
  parse := { reply := module }
  resolve := { reply := [] }
  signatures := { reply := () }
  symbols := { reply := [] }
  ghosts := { reply := [] }
  verify _ := { reply := {} }

/-- Whether the verifier runs no steps and always comes to the same verdict about a
unit. -/
def IsFixed (plan : Plan σ) (verdict : Declaration → Except String Outcome) : Prop :=
  ∀ unit, (plan.verify unit).steps = [] ∧ (plan.verify unit).verdict = verdict unit

variable {plan : Plan σ} {verdict : Declaration → Except String Outcome}

theorem run_verify_of_isFixed (isFixed : plan.IsFixed verdict) (unit : Declaration)
    (session : Session) :
    (SessionM.attempt ((plan.services perform).verify unit)).run session =
      (.ok (verdict unit),
        { session with canceled := session.canceled || (plan.verify unit).cancels }) := by
  have ran : (Script.runSteps perform (plan.verify unit).steps).run session =
      (.ok (), session) := by
    rw [(isFixed unit).1]
    rfl
  rw [← (isFixed unit).2]
  exact Script.run_attempt_follow (plan.verify unit) ran

/-- A verifier that runs no steps respects every discipline. -/
theorem respects_verify_of_isFixed {relation : Bool → Session → Session → Prop}
    (discipline : IsDiscipline relation) (isFixed : plan.IsFixed verdict) (unit : Declaration) :
    SessionM.Respects relation ((plan.services perform).verify unit) := by
  intro session _ _
  refine ⟨?_, fun _ _ => trivial⟩
  rw [← SessionM.snd_run_attempt, run_verify_of_isFixed isFixed]
  exact discipline.of_surroundings rfl rfl rfl rfl id

/-- What is recorded of a unit is determined by the verdict about it. -/
theorem verifies_of_isFixed (number : Nat) (isFixed : plan.IsFixed verdict) :
    (plan.services perform).Verifies number
      fun unit outcome => outcome = Outcome.recorded (verdict unit) where
  steady unit := (respects_verify_of_isFixed (isDiscipline_behaves none) isFixed unit).mono
    fun _ _ _ behaves => behaves.steady number (by simp)
  staysCanceled {unit session result after} ran canceled := by
    rw [run_verify_of_isFixed isFixed] at ran
    cases ran
    simp [canceled]
  outcome {unit session result after} ran := by
    rw [run_verify_of_isFixed isFixed] at ran
    cases ran
    rfl

theorem verifiesAlone_of_isFixed (isFixed : plan.IsFixed verdict) :
    (plan.services perform).VerifiesAlone :=
  fun unit session => ⟨_, _, run_verify_of_isFixed isFixed unit session, rfl, rfl⟩

theorem neverCancels_of_isFixed (isFixed : plan.IsFixed verdict)
    (never : ∀ unit, (plan.verify unit).cancels = false) :
    (plan.services perform).NeverCancels := by
  intro unit session result after ran
  rw [run_verify_of_isFixed isFixed] at ran
  cases ran
  simp [never]

end Plan

/-- A project with one document, in version 1. -/
def Compilation.sample : Compilation where
  project := "p"
  version := 1
  roots := [{ uri := "a", contents := [] }]

namespace Declaration

/-- A method in that document. -/
def sampleMethod : Declaration where
  name := "f"
  kind := .method
  uri := "a"
  range := { start := {}, stop := {} }
  canVerify := true
  verify := true
  verifyMembers := true
  autoGenerated := false
  ghost := false
  members := []

/-- A module in that document with copies of the method. -/
def sampleModule (copies : Nat) : Declaration :=
  { sampleMethod with
    name := "m"
    kind := .module
    members := List.replicate copies (some sampleMethod) }

/-- A second method in that document. -/
def sampleNeighbour : Declaration :=
  { sampleMethod with name := "g", range := { start := { col := 2 }, stop := { col := 2 } } }

/-- A module in that document with both methods. -/
def samplePair : Declaration :=
  { sampleModule 1 with members := [some sampleMethod, some sampleNeighbour] }

end Declaration

/-- The steps that open the sample project and update it to a module once for each flag; a
raised flag cancels the update. -/
def Step.sampleUpdatesTo (module : Declaration) (canceled : List Bool) : List (Step 0) :=
  let plan := .succeeding (some module)
  { request := .openProject .sample, plan } ::
    canceled.map fun canceled => { request := .update 0 .sample, canceled, plan }

/-- The same for the module with copies of the method. -/
def Step.sampleUpdates (copies : Nat) (canceled : List Bool) : List (Step 0) :=
  sampleUpdatesTo (.sampleModule copies) canceled

/-- The session after these steps. -/
def Session.sample (copies : Nat) (canceled : List Bool) : Session :=
  (run {} 0 (Step.sampleUpdates copies canceled)).2

theorem Session.isReachable_sample (copies : Nat) (canceled : List Bool) :
    (sample copies canceled).IsReachable :=
  isReachable_run {} 0 (Step.sampleUpdates copies canceled)

/-- The session in which the sample project was loaded with two methods. -/
def Session.pairSample : Session :=
  (run {} 0 (Step.sampleUpdatesTo .samplePair [false])).2

theorem Session.isReachable_pairSample : pairSample.IsReachable :=
  isReachable_run {} 0 (Step.sampleUpdatesTo .samplePair [false])

/-- The session in which the sample project was loaded and verified. -/
def Session.verifiedSample : Session :=
  (run {} 0 (Step.sampleUpdates 1 [false] ++
    [{ request := .verify 0, plan := .succeeding none }])).2

/-- Verify the sample project with a verifier that always succeeds. -/
def SessionM.verifySample : SessionM Unit :=
  verifyEverything ((Plan.succeeding none).services (Step.perform 0)) 0

end Proofline
