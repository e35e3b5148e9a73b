import Proofline.Proofs.Managers

/-!
# Readiness

Whoever wants to verify waits until the latest version is resolved, or will not be. When
no update of the manager is in progress there is nothing to wait for: however an update
ended, it has taken its version to a resolved snapshot, or settled it, or left it to a
newer one. So a wait goes on only while an update does.
-/

namespace Proofline

namespace Manager

/-- Whether a manager counts no updates, and its latest version is not waited for: nothing
was loaded, or the version is resolved, or it is settled. -/
structure IsAtRest (manager : Manager) : Prop where
  inFlight : manager.inFlight = 0
  ready : manager.latest.stage = .unloaded ∨
    (manager.latest.stage = .resolved ∨ manager.latest.stage = .verified) ∨
      manager.latest.version ≤ manager.settled

theorem IsAttended.isAtRest {manager : Manager} (attended : manager.IsAttended []) :
    manager.IsAtRest where
  inFlight := attended.inFlight
  ready := by
    cases stage : manager.latest.stage with
    | unloaded => exact Or.inl rfl
    | parsed =>
        rcases attended.parsed stage with settled | attending
        · exact Or.inr (Or.inr settled)
        · cases attending
    | resolved => exact Or.inr (Or.inl (Or.inl rfl))
    | verified => exact Or.inr (Or.inl (Or.inr rfl))

theorem IsAtRest.isReady {manager : Manager} (atRest : manager.IsAtRest) :
    manager.isReady = true := by
  rcases atRest.ready with unloaded | (resolved | verified) | settled
  · simp [Manager.isReady, isIdleUnloaded, unloaded, atRest.inFlight]
  · simp [Manager.isReady, resolved]
  · simp [Manager.isReady, verified, Stage.rank]
  · simp [Manager.isReady, settled]

end Manager

namespace SessionM

/-- Waiting until a manager is ready is over at once if the manager is at rest. -/
theorem run_waitUntil_isReady {number : Nat} {session : Session}
    (atRest : (session.manager number).IsAtRest) :
    (waitUntil number Manager.isReady).run session = (.ok true, session) := by
  simp only [waitUntil, run_bind, run_manager, atRest.isReady, if_true, run_pure]

end SessionM

namespace Session

/-- A manager that was attended is so at every moment. -/
theorem Attends.isAttended_of_append {number : Nat} {back : Bool} {before after : Session}
    (attends : before.Attends number back after)
    (wasAttended : (before.manager number).IsAttended (updatesInProgress number before.chronicle))
    {past later : List ChronicleEntry}
    (parts : after.chronicle = before.chronicle ++ (past ++ later)) :
    ((managersAfter before.managers past).getD number default).IsAttended
      (updatesInProgress number (before.chronicle ++ past)) := by
  have stays := attends.attended wasAttended _ parts
  rcases List.eq_nil_or_concat past with rfl | ⟨others, last, rfl⟩
  · rw [List.append_nil]
    exact wasAttended
  · rw [List.concat_eq_append, List.append_assoc] at stays
    rw [List.concat_eq_append, updatesInProgress_append]
    simpa [managersAfter] using stays.of_split

/-- What makes a wait for a manager last in a session whose chronicle tells its whole history:
nothing but an update in progress. -/
structure NeverBlocks (number : Nat) (outcome : Except Stop (List Answer)) (session : Session) :
    Prop where
  /-- At every moment the updates in progress are counted. -/
  counts : ∀ past later, session.chronicle = past ++ later →
    ((managersAfter ∅ past).getD number default).inFlight =
      (updatesInProgress number past).length
  /-- When there are none, nobody has to wait. -/
  atRest : ∀ past later, session.chronicle = past ++ later → updatesInProgress number past = [] →
    ((managersAfter ∅ past).getD number default).IsAtRest
  /-- Who waits nevertheless goes on at once. -/
  goesOn : ∀ past later, session.chronicle = past ++ later → updatesInProgress number past = [] →
    ∀ caller : Session, caller.manager number = (managersAfter ∅ past).getD number default →
      (SessionM.waitUntil number Manager.isReady).run caller = (.ok true, caller)
  /-- When all requests have been answered, all updates have ended. -/
  ended : cameBack outcome = true → updatesInProgress number session.chronicle = []

/-- In every run nobody waits for a manager without an update of it in progress. -/
theorem neverBlocks_run (options : Options) (n : Nat) (steps : List (Step n)) (number : Nat) :
    NeverBlocks number (run options n steps).1 (run options n steps).2 := by
  have attends := (behaves_run options n steps).attends number
  have attended (past later : List ChronicleEntry)
      (parts : (run options n steps).2.chronicle = past ++ later) :
      ((managersAfter ∅ past).getD number default).IsAttended (updatesInProgress number past) :=
    attends.isAttended_of_append Manager.isAttended_default parts
  have atRest (past later : List ChronicleEntry)
      (parts : (run options n steps).2.chronicle = past ++ later)
      (idle : updatesInProgress number past = []) :
      ((managersAfter ∅ past).getD number default).IsAtRest :=
    (idle ▸ attended past later parts).isAtRest
  exact
    { counts := fun past later parts => (attended past later parts).inFlight
      atRest := atRest
      goesOn := fun past later parts idle caller same =>
        SessionM.run_waitUntil_isReady (same ▸ atRest past later parts idle)
      ended := attends.returns }

end Session

end Proofline
