import Proofline.Proofs.Verifying

/-!
# Failures

Failures are reported to the operator under the name of a component. Only services, which may
run further requests, can report failures of other components than their caller. A
verification reports under one name of its own, so it reports no failure of another component
unless the verifier does.
-/

namespace Proofline

/-- The message of a failure of a component, if that is what happened. -/
def Event.failure? (component : String) : Event → Option String
  | .failureReported other message => if other = component then some message else none
  | _ => none

/-- The messages of all failures of a component, in order. -/
def failuresOf (component : String) (entries : List ChronicleEntry) : List String :=
  entries.filterMap fun entry => entry.event.failure? component

namespace Session

variable {component : String}

theorem failuresOf_enter (session : Session) (events : List Event) :
    failuresOf component (session.enter events).chronicle =
      failuresOf component session.chronicle ++ events.filterMap (Event.failure? component) := by
  rw [failuresOf, enter, List.filterMap_append, List.filterMap_map]
  rfl

theorem failuresOf_change (session : Session) (number : Nat) (change : Change) :
    failuresOf component (session.change number change).chronicle =
      failuresOf component session.chronicle := by
  change failuresOf component (session.chronicle ++ [_]) = _
  simp [failuresOf, Event.failure?]

end Session

namespace SessionM

variable {component : String} {α β : Type}

/-- Whether an action never reports a failure of a component. -/
def Withholds (component : String) (action : SessionM α) : Prop :=
  ∀ session, failuresOf component (action.run session).2.chronicle =
    failuresOf component session.chronicle

namespace Withholds

theorem bind {action : SessionM α} {next : α → SessionM β} (first : Withholds component action)
    (rest : ∀ value, Withholds component (next value)) :
    Withholds component (action >>= next) := by
  intro session
  have same := first session
  rw [run_bind]
  rcases ran : action.run session with ⟨stop | value, after⟩
  · rwa [ran] at same
  · rw [ran] at same
    exact (rest value after).trans same

theorem pure (value : α) : Withholds component (Pure.pure value : SessionM α) :=
  fun _ => rfl

/-- An action at which nothing happens. -/
theorem of_chronicle {action : SessionM α}
    (same : ∀ session, (action.run session).2.chronicle = session.chronicle) :
    Withholds component action :=
  fun session => by rw [same]

theorem record {event : Event} (silent : event.failure? component = none) :
    Withholds component (record event) := by
  intro session
  rw [run_record, Session.failuresOf_enter]
  simp [silent]

theorem log (tag : String) (level : LogLevel) (message : String) :
    Withholds component (log tag level message) := by
  intro session
  rw [run_log, Session.failuresOf_enter]
  simp [Event.failure?, List.filterMap_map, Function.comp_def]

theorem change (number : Nat) (change : Change) :
    Withholds component (SessionM.change number change) := by
  intro session
  rw [run_change]
  exact session.failuresOf_change number change

theorem attempt {action : SessionM α} (first : Withholds component action) :
    Withholds component (attempt action) := by
  intro session
  rw [snd_run_attempt]
  exact first session

theorem publish (number : Nat) (snapshot : Snapshot) :
    Withholds component (publish number snapshot) := by
  intro session
  by_cases stale : snapshot.Precedes (session.manager number).latest
  · rcases run_publish_of_precedes stale with ⟨lines, ran⟩
    rw [ran, Session.failuresOf_enter]
    simp [Event.failure?, List.filterMap_map, Function.comp_def]
  · rcases run_publish_of_not_precedes stale with ⟨publications, _, _, acted, _⟩
    rw [acted.chronicle_eq, Session.failuresOf_enter, Session.failuresOf_change]
    simp [Event.failure?, List.filterMap_map, Function.comp_def]

end Withholds

section Verification

variable {services : Services} {number : Nat} {version : Int}

theorem withholds_finishVerification (last : Option Verified) :
    Withholds component (finishVerification number version last) := by
  refine .bind (.change number _) fun _ => ?_
  cases last.filter Verified.complete with
  | none => exact .pure ()
  | some verified =>
      refine .bind (.of_chronicle fun _ => rfl) fun _ => ?_
      exact .bind (.log _ _ _) fun _ => .change number _

variable (verifies : ∀ unit, Withholds component (services.verify unit))
  (other : "verifier" ≠ component)

include verifies other

theorem withholds_verifyUnit (unit : Declaration) :
    Withholds component (verifyUnit services number version unit) := by
  refine .bind (.record rfl) fun _ => .bind (.attempt (verifies unit)) fun result => ?_
  cases result with
  | ok outcome => exact .pure outcome
  | error message => exact .bind (.record (if_neg other)) fun _ => .pure _

theorem withholds_verifyUnits (units : List Declaration) (verified : Verified) :
    Withholds component (verifyUnits services number version units verified) := by
  induction units generalizing verified with
  | nil => exact .pure (some verified)
  | cons unit rest ih =>
      refine .bind (.of_chronicle fun _ => rfl) fun canceled => ?_
      split
      · exact .pure (some verified)
      split
      · exact ih verified
      refine .bind (withholds_verifyUnit verifies other unit) fun outcome => ?_
      refine .bind (.of_chronicle fun _ => rfl) fun canceled => ?_
      split
      · exact .pure (some verified)
      refine .bind (.publish number _) fun accepted => ?_
      split
      · exact ih (verified.withResult unit outcome)
      · exact .pure none

theorem withholds_runVerification {begin : SessionM (Option Verified)}
    (begins : Withholds component begin) :
    Withholds component (runVerification services number version begin) := by
  refine .bind (.change number _) fun _ => .bind begins fun first => ?_
  cases first with
  | none => exact withholds_finishVerification none
  | some verified =>
      exact .bind (withholds_verifyUnits verifies other _ verified) fun last =>
        withholds_finishVerification last

/-- A verification reports no failures but its own and those that the verifier reports. -/
theorem withholds_verifyEverything (number : Nat) :
    Withholds component (verifyEverything services number) := by
  intro session
  rcases run_verifyEverything_cases services number session with
    same | ⟨_, ⟨base, _, ran⟩ | ⟨partly, _, ran⟩⟩
  · rw [same]
  · rw [ran]
    refine withholds_runVerification verifies other (.bind (.publish number _) fun accepted => ?_)
      session
    split
    · exact .pure _
    · exact .pure none
  · rw [ran]
    exact withholds_runVerification verifies other (.pure _) session

end Verification

section Scripts

variable {σ : Type} {perform : σ → SessionM Answer}

theorem withholds_runSteps {steps : List σ}
    (silent : ∀ step ∈ steps, Withholds component (perform step)) :
    Withholds component (Script.runSteps perform steps) := by
  induction steps with
  | nil => exact .pure ()
  | cons step rest ih =>
      refine .bind (silent step (by simp)) fun answer => .bind (.record rfl) fun _ => ?_
      exact ih fun other mem => silent other (by simp [mem])

/-- The verifier of a plan reports no failures but those of the steps that it runs. -/
theorem withholds_verify {plan : Plan σ} {unit : Declaration}
    (silent : ∀ step ∈ (plan.verify unit).steps, Withholds component (perform step)) :
    Withholds component ((plan.services perform).verify unit) := by
  have reporting (reports : List Report) : Withholds component (reports.forM Plan.noJournal) := by
    induction reports with
    | nil => exact .pure ()
    | cons report rest ih => exact .bind (.pure ()) fun _ => ih
  have concluding : Withholds component (plan.verify unit).conclude := by
    unfold Script.conclude
    split
    · exact .of_chronicle fun _ => rfl
    · exact .pure _
  refine .bind (withholds_runSteps silent) fun _ => ?_
  split
  · exact .bind (.of_chronicle fun _ => rfl) fun _ => .bind (reporting _) fun _ => concluding
  · exact .bind (reporting _) fun _ => concluding

end Scripts

end SessionM

end Proofline
