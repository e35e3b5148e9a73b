import Proofline.Proofs.Uninterrupted

/-!
# Repeating verification

The mark that a manager sets on the version it verifies is taken back however the
attempt comes back, except when the publisher fails at one of its snapshots. Such an
attempt is abandoned, and as long as no newer version is verified, its version is not
verified again. After any other attempt a later call verifies the units that still have
no result.
-/

namespace Proofline

namespace Session

/-- What attempts to verify leave behind, and what becomes of later ones. -/
structure RepeatsVerification (number : Nat) (session : Session) : Prop where
  /-- At every moment a version is marked exactly while the newest attempt is one to verify
  it, and is in progress or abandoned. -/
  marked : ∀ earlier entry later, session.chronicle = earlier ++ entry :: later →
    ∀ version, (entry.managers.getD number default).verifying = some version ↔
      newestAttempt number (earlier ++ [entry]) = some { version, phase := .inProgress } ∨
      newestAttempt number (earlier ++ [entry]) = some { version, phase := .abandoned }
  markedLast : ∀ version, (session.manager number).verifying = some version ↔
    session.HasAttempted number version .inProgress ∨
    session.HasAttempted number version .abandoned
  /-- Only the publisher has attempts abandoned. -/
  cause : ∀ version, session.HasAttempted number version .abandoned →
    ∃ entry ∈ session.chronicle, entry.event.publisherFailure? number ≠ none ∧
      (entry.latest number).stage = .verified ∧ (entry.latest number).version = version
  /-- After a run nothing is in progress. -/
  idle : ∀ (options : Options) (n : Nat) (steps : List (Step n)) (answers : List Answer),
    run options n steps = (.ok answers, session) →
    ∀ version, ¬session.HasAttempted number version .inProgress
  /-- Neither is anything that a call began which has come back, by whatever way. -/
  left : ∀ (n : Nat) (plan : Plan (Step n)) outcome after,
    (SessionM.verifyEverything (plan.services (Step.perform n)) number).run session =
      (outcome, after) →
    cameBack outcome = true → ∀ other version, after.HasAttempted other version .inProgress →
      session.HasAttempted other version .inProgress
  /-- A version is not verified again after its attempt was abandoned. -/
  refused : ∀ verified, (session.manager number).latest.begun? = some verified →
    session.HasAttempted number verified.compilation.version .abandoned →
    ∀ services, (SessionM.verifyEverything services number).run session = (.ok (), session)
  /-- Otherwise a call that is not interrupted verifies the units without a result, if the
  version is unsettled and not being verified. -/
  repeated : ∀ verified, (session.manager number).latest.begun? = some verified →
    (session.manager number).settled < verified.compilation.version →
    ¬session.HasAttempted number verified.compilation.version .inProgress →
    ¬session.HasAttempted number verified.compilation.version .abandoned →
    ∀ (n : Nat) (plan : Plan (Step n)) outcome after,
      (SessionM.verifyEverything (plan.services (Step.perform n)) number).run session =
        (outcome, after) →
      session.Uninterrupted number outcome after →
      outcome = .ok () ∧ ∃ recorded,
        recorded.map Prod.fst = verified.pending verified.resolved.units ∧
        (after.manager number).latest = .verified (verified.record recorded)

variable {session : Session}

/-- A call that verifies leaves nothing in progress that was not when it began. -/
theorem unwinds_verifyEverything (wellNumbered : session.WellNumbered) {n : Nat}
    (plan : Plan (Step n)) {number : Nat} {outcome : Except Stop Unit} {after : Session}
    (ran : (SessionM.verifyEverything (plan.services (Step.perform n)) number).run session =
      (outcome, after))
    (back : cameBack outcome = true) {other : Nat} {version : Int}
    (inProgress : after.HasAttempted other version .inProgress) :
    session.HasAttempted other version .inProgress := by
  have respect := SessionM.respect_services (isDiscipline_behaves none)
    (Step.behaves_perform n) plan
  have behaves :=
    (SessionM.respects_verifyEverything respect.verify number session wellNumbered trivial).1
  rw [ran] at behaves
  exact behaves.unwinds back inProgress

/-- Nothing is in progress before anything has happened. -/
theorem not_hasAttempted_initial (options : Options) (number : Nat) (version : Int)
    (phase : Attempt.Phase) : ¬(initial options).HasAttempted number version phase := by
  simp [HasAttempted, initial, newestAttempt]

/-- In every session attempts to verify can be repeated unless the publisher had them
abandoned. -/
theorem IsReachable.repeatsVerification (reachable : session.IsReachable) (number : Nat) :
    session.RepeatsVerification number where
  marked earlier entry later parts version := by
    rw [(reachable.history.1.split parts).1.verifying_eq number]
    exact Attempt.bind_marked?_eq_some_iff
  markedLast version := by
    rw [manager, reachable.history.1.verifying_eq number]
    exact Attempt.bind_marked?_eq_some_iff
  cause version abandoned := exists_failure_of_abandoned abandoned rfl
  idle options n steps answers ran version inProgress := by
    have behaves := behaves_run options n steps
    rw [ran] at behaves
    exact not_hasAttempted_initial options number version _ (behaves.unwinds rfl inProgress)
  left n plan outcome after ran back other version inProgress :=
    unwinds_verifyEverything reachable.wellNumbered plan ran back inProgress
  refused verified begins abandoned services := by
    apply SessionM.run_verifyEverything_of_begun begins
    right
    rw [manager, reachable.history.1.verifying_eq number]
    exact Attempt.bind_marked?_eq_some_iff.mpr (Or.inr abandoned)
  repeated verified begins unsettled notInProgress notAbandoned n plan outcome after ran
      uninterrupted := by
    have accepts : ¬(session.manager number).Refuses verified.compilation.version := by
      rw [Manager.not_refuses_iff]
      refine ⟨unsettled, fun marked => ?_⟩
      rw [manager, reachable.history.1.verifying_eq number] at marked
      rcases Attempt.bind_marked?_eq_some_iff.mp marked with inProgress | abandoned
      · exact notInProgress inProgress
      · exact notAbandoned abandoned
    obtain ⟨ended, recorded, all, finished⟩ := SessionM.run_verifyEverything_uninterrupted
      reachable.wellNumbered begins accepts ran uninterrupted
    refine ⟨ended, recorded, all, ?_⟩
    rw [finished, Manager.latest_finish]

end Session

/-- The steps that update the sample project, tell the publisher to cancel the next step or
to fail at its first publication, and verify the project. -/
def Step.sampleAttempt (failure : Option String) : List (Step 0) :=
  let plan := .succeeding none
  Step.sampleUpdates 1 [false] ++
    [{ request := .onPublish { uri := "a", failure }, plan }, { request := .verify 0, plan }]

namespace Session

/-- The session after these steps. -/
def attempted (failure : Option String) : Session :=
  (run {} 0 (Step.sampleAttempt failure)).2

/-- A version whose verification was canceled is verified by the next call. -/
theorem repeatsVerification_sample :
    ∃ verified recorded after,
      ((attempted none).manager 0).latest.begun? = some verified ∧
      SessionM.verifySample.run (attempted none) = (.ok (), after) ∧
      recorded.map Prod.fst = verified.pending verified.resolved.units ∧
      (after.manager 0).latest = .verified (verified.record recorded) := by
  have begun : ((attempted none).manager 0).latest.begun?.isSome = true := by
    decide +kernel
  have unsettled : ((attempted none).manager 0).settled <
        ((attempted none).manager 0).latest.version ∧
      ¬(attempted none).HasAttempted 0 ((attempted none).manager 0).latest.version .inProgress ∧
      ¬(attempted none).HasAttempted 0 ((attempted none).manager 0).latest.version .abandoned := by
    decide +kernel
  have uninterrupted : (attempted none).Uninterrupted 0
      (SessionM.verifySample.run (attempted none)).1
      (SessionM.verifySample.run (attempted none)).2 := by
    decide +kernel
  have reachable := isReachable_run {} 0 (Step.sampleAttempt none)
  change (attempted none).IsReachable at reachable
  generalize attempted none = session at *
  obtain ⟨verified, begins⟩ := Option.isSome_iff_exists.mp begun
  have version := Snapshot.version_of_begun? begins
  rw [← version] at unsettled
  obtain ⟨ended, recorded, all, latest⟩ :=
    (reachable.repeatsVerification 0).repeated verified begins unsettled.1 unsettled.2.1
      unsettled.2.2 0 (.succeeding none) _ _ rfl uninterrupted
  exact ⟨verified, recorded, _, begins, Prod.ext ended rfl, all, latest⟩

/-- A version at whose first snapshot the publisher failed stays marked, although nothing is
in progress, and verifying it again does nothing: its unit is never verified. -/
theorem abandoned_sample :
    let session := attempted (some "client gone")
    (session.manager 0).latest.stage = .verified ∧
      (session.manager 0).settled < (session.manager 0).latest.version ∧
      (session.manager 0).verifying = some (session.manager 0).latest.version ∧
      session.HasAttempted 0 (session.manager 0).latest.version .abandoned ∧
      ((session.manager 0).latest.begun?.map fun verified =>
        (verified.pending verified.resolved.units).length) = some 1 ∧
      (SessionM.verifySample.run session).2.chronicle.length = session.chronicle.length := by
  decide +kernel

end Session

end Proofline
